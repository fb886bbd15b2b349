import AuraChat.Storage.Community

set_option autoImplicit false

/-!
# The store remembers

* `registrations`, `requestsMade`, `acceptances`, `messagesSubmitted`: what the calls of a run have achieved, by
  their answers;
* `Community.Remembers`: the community is a function of it;
* **`answers_from_history`**: so are the answers of the file store, wherever the server was restarted.
-/

namespace AuraChat

open Trace

variable {J : JsonLib} {hash : String → String} {c c' : Community} {es : List Exchange} {e : Exchange} {d : Disk}

/-! ## What the calls have achieved -/

/-- Uid, name and password. -/
def Exchange.registers : Exchange → Option (Int × String × String)
  | ⟨.registerUser name password, uid⟩ => if uid = -2 then none else some (uid, name, password)
  | _ => none

/-- Id, sender, addressee and text of a friend request. -/
def Exchange.asks : Exchange → Option (Int × Int × Int × String)
  | ⟨.addFriendRequest fromUid toUid msg, id⟩ => if 0 < id then some (id, fromUid, toUid, msg) else none
  | _ => none

/-- Id, sender and addressee of a friend request that is accepted. -/
def Exchange.accepts : Exchange → Option (Int × Int × Int)
  | ⟨.acceptFriendRequest id uid, fromUid⟩ => if 0 ≤ fromUid then some (id, fromUid, uid) else none
  | _ => none

def Exchange.submits : Exchange → Option DBChatMessage
  | ⟨.submit m, _⟩ => some m
  | _ => none

def registrations (es : List Exchange) : List (Int × String × String) := es.filterMap Exchange.registers

def requestsMade (es : List Exchange) : List (Int × Int × Int × String) := es.filterMap Exchange.asks

def acceptances (es : List Exchange) : List (Int × Int × Int) := es.filterMap Exchange.accepts

def messagesSubmitted (es : List Exchange) : List DBChatMessage := es.filterMap Exchange.submits

theorem filterMap_snoc {α β : Type} (f : α → Option β) (l : List α) (a : α) :
    (l ++ [a]).filterMap f = l.filterMap f ++ (f a).toList := by
  rw [List.filterMap_append, List.filterMap_cons]
  cases f a <;> rfl

/-- A community that is what registrations, friend requests, acceptances and submitted messages have made it. -/
structure Community.Remembers (hash : String → String) (c : Community)
    (registered : List (Int × String × String)) (made : List (Int × Int × Int × String))
    (accepted : List (Int × Int × Int)) (submitted : List DBChatMessage) : Prop where
  accounts : ∀ x, x ∈ c.accounts ↔ ∃ r ∈ registered, x = (r.1, r.2.1, hash r.2.2)
  asked : ∀ x, x ∈ c.asked ↔ x ∈ made ∧ ∀ r ∈ accepted, r.1 ≠ x.1
  friends : ∀ z, z ∈ c.friends ↔ ∃ r ∈ accepted, z = s(r.2.1, r.2.2)
  mail : ∀ uid, ∀ x ∈ c.mail uid, ∃ m ∈ submitted, m.toUid = uid ∧ m.delivered = false ∧
    m.fromUid = x.2.1 ∧ m.content = x.2.2
  outbox : c.outbox ⊆ submitted
  uidBound : 1000 ≤ c.uidBound
  requestBound : 1 ≤ c.requestBound
  /-- No two requests have one id. -/
  ids : made.Pairwise fun x y => x.1 < y.1
  madeBound : ∀ x ∈ made, x.1 < c.requestBound ∧ 0 ≤ x.2.1
  acceptedBound : ∀ r ∈ accepted, r.1 < c.requestBound

theorem remembers_founded : Community.founded.Remembers hash [] [] [] [] := by
  constructor
  case ids => exact List.Pairwise.nil
  case uidBound | requestBound => decide
  all_goals simp [Community.founded]

/-! ## One call -/

namespace Community.Remembers

variable {registered : List (Int × String × String)} {made : List (Int × Int × Int × String)}
  {accepted : List (Int × Int × Int)} {submitted : List DBChatMessage}

theorem register (h : c.Remembers hash registered made accepted submitted) (name password : String)
    {uid : Int} (hnew : c.uidBound ≤ uid) : Community.Remembers hash { c with
      accounts := insert (uid, name, hash password) c.accounts
      uidBound := uid + 1 } (registered ++ [(uid, name, password)]) made accepted submitted where
  accounts x := by
    simp only [Set.mem_insert_iff, h.accounts, List.mem_append, List.mem_singleton, or_and_right, exists_or,
      exists_eq_left]
    exact or_comm
  asked := h.asked
  friends := h.friends
  mail := h.mail
  outbox := h.outbox
  uidBound := by
    have hpos := h.uidBound
    dsimp only
    omega
  requestBound := h.requestBound
  ids := h.ids
  madeBound := h.madeBound
  acceptedBound := h.acceptedBound

theorem ask (h : c.Remembers hash registered made accepted submitted) {fromUid id : Int} (toUid : Int)
    (msg : String) (hnew : c.requestBound ≤ id) (hfrom : 0 ≤ fromUid) : Community.Remembers hash { c with
      asked := insert (id, fromUid, toUid, msg) c.asked
      requestBound := id + 1 } registered (made ++ [(id, fromUid, toUid, msg)]) accepted submitted where
  accounts := h.accounts
  asked x := by
    -- nobody has accepted the new request
    have hopen : ∀ r ∈ accepted, r.1 ≠ id := fun r hr => ne_of_lt ((h.acceptedBound r hr).trans_le hnew)
    rw [Set.mem_insert_iff, h.asked, List.mem_append, List.mem_singleton]
    constructor
    · rintro (rfl | ⟨hmem, hno⟩)
      · exact ⟨.inr rfl, hopen⟩
      · exact ⟨.inl hmem, hno⟩
    · rintro ⟨hmem | rfl, hno⟩
      · exact .inr ⟨hmem, hno⟩
      · exact .inl rfl
  friends := h.friends
  mail := h.mail
  outbox := h.outbox
  uidBound := h.uidBound
  requestBound := by
    have hpos := h.requestBound
    dsimp only
    omega
  ids := by
    refine List.pairwise_append.mpr ⟨h.ids, List.pairwise_singleton _ _, fun x hx y hy => ?_⟩
    obtain rfl := List.mem_singleton.mp hy
    exact (h.madeBound x hx).1.trans_le hnew
  madeBound := by
    refine List.forall_mem_append.mpr ⟨fun x hx => ?_, List.forall_mem_singleton.mpr ⟨Int.lt_succ id, hfrom⟩⟩
    obtain ⟨hlt, h0⟩ := h.madeBound x hx
    exact ⟨Int.lt_add_one_of_le (hlt.le.trans hnew), h0⟩
  acceptedBound r hr := Int.lt_add_one_of_le ((h.acceptedBound r hr).le.trans hnew)

theorem accept (h : c.Remembers hash registered made accepted submitted) {id uid fromUid : Int} {text : String}
    (hasked : (id, fromUid, uid, text) ∈ c.asked) : Community.Remembers hash { c with
      asked := c.asked \ {(id, fromUid, uid, text)}
      friends := insert s(fromUid, uid) c.friends } registered made (accepted ++ [(id, fromUid, uid)])
      submitted where
  accounts := h.accounts
  asked x := by
    have hmade := ((h.asked _).mp hasked).1
    rw [Set.mem_sdiff, h.asked, Set.mem_singleton_iff, and_assoc]
    refine and_congr_right fun hx => ?_
    rw [List.forall_mem_append, List.forall_mem_singleton]
    refine and_congr_right fun _ => not_congr ⟨fun e => by rw [e], fun e => ?_⟩
    -- no two requests have this id
    have hids : (made.map Prod.fst).Nodup := List.pairwise_map.mpr (h.ids.imp fun hxy => ne_of_lt hxy)
    exact List.inj_on_of_nodup_map hids hx hmade e.symm
  friends z := by
    simp only [Set.mem_insert_iff, h.friends, List.mem_append, List.mem_singleton, or_and_right, exists_or,
      exists_eq_left]
    exact or_comm
  mail := h.mail
  outbox := h.outbox
  uidBound := h.uidBound
  requestBound := h.requestBound
  ids := h.ids
  madeBound := h.madeBound
  acceptedBound := by
    have hmade := ((h.asked _).mp hasked).1
    exact List.forall_mem_append.mpr ⟨h.acceptedBound, List.forall_mem_singleton.mpr (h.madeBound _ hmade).1⟩

theorem handIn (h : c.Remembers hash registered made accepted submitted) (m : DBChatMessage) :
    Community.Remembers hash { c with outbox := c.outbox ++ [m] } registered made accepted (submitted ++ [m]) where
  accounts := h.accounts
  asked := h.asked
  friends := h.friends
  mail uid x hx := by
    obtain ⟨m', hm, hmail⟩ := h.mail uid x hx
    exact ⟨m', List.mem_append_left _ hm, hmail⟩
  outbox := List.append_subset.mpr
    ⟨fun _ hm => List.mem_append_left _ (h.outbox hm), List.subset_append_right _ _⟩
  uidBound := h.uidBound
  requestBound := h.requestBound
  ids := h.ids
  madeBound := h.madeBound
  acceptedBound := h.acceptedBound

/-- Mail may be posted from the outbox and taken out, and the outbox may lose messages. -/
theorem moveMail (h : c.Remembers hash registered made accepted submitted)
    {mail : Int → List (Int × Int × Bytes)} {outbox : List DBChatMessage} {bound : Int}
    (hout : outbox ⊆ c.outbox)
    (hmail : ∀ uid, ∀ x ∈ mail uid, x ∈ c.mail uid ∨ ∃ m ∈ c.outbox, m.toUid = uid ∧ m.delivered = false ∧
      m.fromUid = x.2.1 ∧ m.content = x.2.2) :
    Community.Remembers hash { c with mail := mail, outbox := outbox, mailBound := bound } registered made
      accepted submitted where
  accounts := h.accounts
  asked := h.asked
  friends := h.friends
  mail uid x hx := by
    rcases hmail uid x hx with hx | ⟨m, hm, heq⟩
    · exact h.mail uid x hx
    · exact ⟨m, h.outbox hm, heq⟩
  outbox _ hm := h.outbox (hout hm)
  uidBound := h.uidBound
  requestBound := h.requestBound
  ids := h.ids
  madeBound := h.madeBound
  acceptedBound := h.acceptedBound

end Community.Remembers

/-! ## Runs -/

/-- What a run has achieved is what the community is made of. -/
def Community.History (hash : String → String) (es : List Exchange) (c : Community) : Prop :=
  c.Remembers hash (registrations es) (requestsMade es) (acceptances es) (messagesSubmitted es)

theorem mem_mailFor {uid : Int} {posted : List (Int × DBChatMessage)} {x : Int × Int × Bytes}
    (h : x ∈ Community.mailFor uid posted) : ∃ m ∈ posted.map Prod.snd, m.toUid = uid ∧ m.delivered = false ∧
      m.fromUid = x.2.1 ∧ m.content = x.2.2 := by
  obtain ⟨y, hy, rfl⟩ := List.mem_map.mp h
  obtain ⟨hmem, htest⟩ := List.mem_filter.mp hy
  simp only [Bool.and_eq_true, beq_iff_eq, Bool.not_eq_true'] at htest
  exact ⟨y.2, List.mem_map_of_mem hmem, htest.1, htest.2, rfl, rfl⟩

/-- An exchange that achieves nothing. -/
def Exchange.Quiet (e : Exchange) : Prop :=
  e.registers = none ∧ e.asks = none ∧ e.accepts = none ∧ e.submits = none

theorem history_concat (h : c'.Remembers hash (registrations es ++ e.registers.toList)
    (requestsMade es ++ e.asks.toList) (acceptances es ++ e.accepts.toList)
    (messagesSubmitted es ++ e.submits.toList)) : Community.History hash (es ++ [e]) c' := by
  simp only [Community.History, registrations, requestsMade, acceptances, messagesSubmitted, filterMap_snoc]
  exact h

theorem history_quiet (h : Community.History hash es c) (he : e.Quiet) : Community.History hash (es ++ [e]) c := by
  obtain ⟨hr, ha, hc, hs⟩ := he
  refine history_concat ?_
  simp only [hr, ha, hc, hs, Option.toList_none, List.append_nil]
  exact h

theorem history_step (h : Community.History hash es c) (hfair : e.1.op.Fair) (hs : c.Lives hash e c') :
    Community.History hash (es ++ [e]) c' := by
  obtain ⟨a, ans⟩ := e
  cases hs with
  | nameTaken | alreadyFriends | alreadyAsked | acceptRefused | loggedIn | loginRefused | found | friends
  | pending | mail | waits => exact history_quiet h ⟨rfl, rfl, rfl, rfl⟩
  | restarted =>
      refine history_quiet ?_ ⟨rfl, rfl, rfl, rfl⟩
      exact h.moveMail (List.nil_subset _) fun uid x hx => .inl hx
  | delivered uid maxId =>
      refine history_quiet (h.moveMail (List.Subset.refl _) fun u x hx => .inl ?_) ⟨rfl, rfl, rfl, rfl⟩
      rw [Function.update_apply] at hx
      split_ifs at hx with hu
      · subst hu
        exact (List.mem_filter.mp hx).1
      · exact hx
  | posted posted rest bound hout hids hnew hbound =>
      refine history_quiet (h.moveMail ?_ fun u x hx => ?_) ⟨rfl, rfl, rfl, rfl⟩
      · rw [hout]
        exact List.subset_append_right _ _
      · refine (List.mem_append.mp hx).imp_right fun hx => ?_
        obtain ⟨m, hm, heq⟩ := mem_mailFor hx
        rw [hout]
        exact ⟨m, List.mem_append_left _ hm, heq⟩
  | registered name password _ hfree hnew =>
      have hpos := h.uidBound
      have hid : ans ≠ -2 := ne_of_gt (lt_of_lt_of_le (by omega : (-2 : Int) < c.uidBound) hnew)
      refine history_concat ?_
      simp only [Exchange.registers, Exchange.asks, Exchange.accepts, Exchange.submits, if_neg hid,
        Option.toList_some, Option.toList_none, List.append_nil]
      exact h.register name password hnew
  | asked fromUid toUid msg _ hfriends hnone hnew =>
      have hpos := h.requestBound
      have hid : 0 < ans := lt_of_lt_of_le (by omega : (0 : Int) < c.requestBound) hnew
      refine history_concat ?_
      simp only [Exchange.registers, Exchange.asks, Exchange.accepts, Exchange.submits, if_pos hid,
        Option.toList_some, Option.toList_none, List.append_nil]
      exact h.ask toUid msg hnew hfair
  | accepted requestId acceptorUid _ text hasked =>
      have hfrom : 0 ≤ ans := (h.madeBound _ ((h.asked _).mp hasked).1).2
      refine history_concat ?_
      simp only [Exchange.registers, Exchange.asks, Exchange.accepts, Exchange.submits, if_pos hfrom,
        Option.toList_some, Option.toList_none, List.append_nil]
      exact h.accept hasked
  | handedIn m =>
      refine history_concat ?_
      simp only [Exchange.registers, Exchange.asks, Exchange.accepts, Exchange.submits, Option.toList_some,
        Option.toList_none, List.append_nil]
      exact h.handIn m

theorem history_of_run (hJ : J.Lawful) (h : Run (Disk.FairServes J hash) Disk.empty es d) :
    Community.History hash es d.store.community := by
  induction h with
  | nil =>
      have hfounded : Disk.empty.store.community = Community.founded := by
        ext x <;> simp [Disk.empty, Store.community, Community.founded]
      rw [hfounded]
      exact remembers_founded
  | snoc hr hs ih => exact history_step ih hs.1 (lives_of_serves (ready_of_serves hJ hr) hs.2)

/-! ## Answers -/

/-- Answers that say what calls have achieved. -/
structure Store.Recalls (hash : String → String) (st : Store) (es : List Exchange) : Prop where
  registerUser : ∀ name password,
    (st.registerUser hash name password).1 = -2 ↔ ∃ r ∈ registrations es, r.2.1 = name
  verifyLogin : ∀ name password uid, uid ≠ -1 → (st.verifyLogin hash name password = uid ↔
    ∃ password', (uid, name, password') ∈ registrations es ∧ hash password' = hash password)
  searchUsers : ∀ keyword, ∀ x ∈ st.searchUsers keyword, ∃ password, (x.1, x.2, password) ∈ registrations es
  getFriends : ∀ uid other, (∃ name, (other, name) ∈ st.getFriends uid) ↔
    ∃ id, (id, uid, other) ∈ acceptances es ∨ (id, other, uid) ∈ acceptances es
  getPendingRequests : ∀ uid id fromUid message,
    (∃ name, ⟨id, fromUid, name, message⟩ ∈ st.getPendingRequests uid) ↔
      (id, fromUid, uid, message) ∈ requestsMade es ∧ ∀ r ∈ acceptances es, r.1 ≠ id
  queryOfflineMessages : ∀ uid, ∀ m ∈ st.queryOfflineMessages uid, ∃ m' ∈ messagesSubmitted es,
    m'.toUid = uid ∧ m'.delivered = false ∧ m'.fromUid = m.fromUid ∧ m'.content = m.content

section Recalls

variable {st : Store}

theorem recalls_registerUser (h : Community.History hash es st.community) (name password : String) :
    (st.registerUser hash name password).1 = -2 ↔ ∃ r ∈ registrations es, r.2.1 = name := by
  have htaken : (∃ r ∈ registrations es, r.2.1 = name) ↔ ∃ a ∈ st.community.accounts, a.2.1 = name := by
    simp only [h.accounts]
    constructor
    · rintro ⟨r, hr, rfl⟩
      exact ⟨_, ⟨r, hr, rfl⟩, rfl⟩
    · rintro ⟨-, ⟨r, hr, rfl⟩, rfl⟩
      exact ⟨r, hr, rfl⟩
  have hs : st.community.Step hash (.registerUser name password) _ _ := step_registerUser st name password
  rw [htaken]
  generalize (st.registerUser hash name password).1 = ans, (st.registerUser hash name password).2.community = c'
    at hs ⊢
  cases hs with
  | nameTaken _ _ htaken => exact ⟨fun _ => htaken, fun _ => rfl⟩
  | registered _ _ _ hfree hnew =>
      have hpos := h.uidBound
      refine ⟨fun hans => ?_, fun ⟨a, ha, hname⟩ => absurd hname (hfree a ha)⟩
      have hne := ne_of_gt (lt_of_lt_of_le (by omega : (-2 : Int) < st.community.uidBound) hnew)
      exact absurd hans hne

theorem recalls_verifyLogin (ha : st.AccountsSound) (h : Community.History hash es st.community)
    (name password : String) {uid : Int} (huid : uid ≠ -1) : st.verifyLogin hash name password = uid ↔
      ∃ password', (uid, name, password') ∈ registrations es ∧ hash password' = hash password := by
  have haccount : (uid, name, hash password) ∈ st.community.accounts ↔
      ∃ password', (uid, name, password') ∈ registrations es ∧ hash password' = hash password := by
    rw [h.accounts]
    constructor
    · rintro ⟨r, hr, he⟩
      obtain ⟨rfl, rfl, hhash⟩ : uid = r.1 ∧ name = r.2.1 ∧ hash password = hash r.2.2 := by
        simpa only [Prod.mk.injEq] using he
      exact ⟨r.2.2, hr, hhash.symm⟩
    · rintro ⟨password', hr, hhash⟩
      exact ⟨_, hr, by rw [hhash]⟩
  rw [← haccount]
  constructor
  · intro hlogin
    have hs : st.community.Step hash (.verifyLogin name password) _ _ := step_verifyLogin ha name password
    rw [hlogin] at hs
    cases hs with
    | loggedIn _ _ _ hmem => exact hmem
    | loginRefused => exact absurd rfl huid
  · intro hmem
    rw [verifyLogin_of_mem hash ha.names (mem_accounts.mp hmem) password, if_pos rfl]

theorem recalls_searchUsers (ha : st.AccountsSound) (h : Community.History hash es st.community)
    (keyword : String) {x : Int × String} (hx : x ∈ st.searchUsers keyword) :
    ∃ password, (x.1, x.2, password) ∈ registrations es := by
  have hs : st.community.Step hash (.searchUsers keyword) _ _ := step_searchUsers ha keyword
  cases hs with
  | found _ _ _ _ hfound =>
      obtain ⟨⟨digest, hmem⟩, -⟩ := hfound x hx
      obtain ⟨r, hr, he⟩ := (h.accounts _).mp hmem
      simp only [Prod.mk.injEq] at he
      exact ⟨r.2.2, by rw [he.1, he.2.1]; exact hr⟩

theorem exists_named (ha : st.AccountsSound) (uid : Int) : ∃ name, st.community.Named uid name :=
  ⟨_, (named_iff ha uid _).mpr rfl⟩

theorem recalls_getFriends (ha : st.AccountsSound) (h : Community.History hash es st.community)
    (uid other : Int) : (∃ name, (other, name) ∈ st.getFriends uid) ↔
      ∃ id, (id, uid, other) ∈ acceptances es ∨ (id, other, uid) ∈ acceptances es := by
  have hs : st.community.Step hash (.getFriends uid) _ _ := step_getFriends ha uid
  cases hs with
  | friends _ _ hmem =>
      simp only [hmem, exists_and_left, exists_named ha, and_true, h.friends]
      constructor
      · rintro ⟨⟨id, a, b⟩, hr, he⟩
        rcases Sym2.eq_iff.mp he with ⟨rfl, rfl⟩ | ⟨rfl, rfl⟩
        · exact ⟨id, .inl hr⟩
        · exact ⟨id, .inr hr⟩
      · rintro ⟨id, hr | hr⟩
        · exact ⟨_, hr, rfl⟩
        · exact ⟨_, hr, Sym2.eq_swap⟩

theorem recalls_getPendingRequests (ha : st.AccountsSound) (hasc : st.Ascending)
    (h : Community.History hash es st.community) (uid id fromUid : Int) (message : String) :
    (∃ name, ⟨id, fromUid, name, message⟩ ∈ st.getPendingRequests uid) ↔
      (id, fromUid, uid, message) ∈ requestsMade es ∧ ∀ r ∈ acceptances es, r.1 ≠ id := by
  have hs : st.community.Step hash (.getPendingRequests uid) _ _ := step_getPendingRequests ha hasc uid
  cases hs with
  | pending _ _ _ hmem => simp only [hmem, exists_and_left, exists_named ha, and_true, h.asked]

theorem recalls_queryOfflineMessages (h : Community.History hash es st.community) (uid : Int)
    {m : DBChatMessage} (hm : m ∈ st.queryOfflineMessages uid) : ∃ m' ∈ messagesSubmitted es,
      m'.toUid = uid ∧ m'.delivered = false ∧ m'.fromUid = m.fromUid ∧ m'.content = m.content := by
  have hs : st.community.Step hash (.queryOfflineMessages uid) _ _ := step_queryOfflineMessages st uid
  generalize st.queryOfflineMessages uid = ms at hs hm
  cases hs with
  | mail =>
      obtain ⟨x, hx, rfl⟩ := List.mem_map.mp hm
      exact h.mail uid x hx

end Recalls

/-- **The store remembers.** After every run from an empty data directory, wherever the server was restarted in
between, the answers say what the calls of the run have achieved: a name is taken when it was registered, a
login succeeds with a password of the digest it was registered with, friends are those of whom one accepted a
request of the other, a request waits when it was made and not accepted, and the messages that wait were handed
in. -/
theorem answers_from_history (hJ : J.Lawful) (h : Run (Disk.FairServes J hash) Disk.empty es d) :
    d.store.Recalls hash es := by
  have hready := ready_of_serves hJ h
  have hhistory := history_of_run hJ h
  exact {
    registerUser := recalls_registerUser hhistory
    verifyLogin := fun name password _ => recalls_verifyLogin hready.accounts hhistory name password
    searchUsers := fun keyword _ => recalls_searchUsers hready.accounts hhistory keyword
    getFriends := recalls_getFriends hready.accounts hhistory
    getPendingRequests := recalls_getPendingRequests hready.accounts hready.ascending hhistory
    queryOfflineMessages := fun uid _ => recalls_queryOfflineMessages hhistory uid }

/-- A request waits after a restart. -/
theorem answers_from_history_sample : ∃ d : Disk, d.store.Recalls id
    [⟨.registerUser "alice" "secret", 1000⟩, ⟨.addFriendRequest 1000 1001 "hello", 1⟩, ⟨.restart, ()⟩] := by
  have hname : (StoreCall.registerUser "alice" "secret").op.Fair := by decide
  have hask : (StoreCall.addFriendRequest 1000 1001 "hello").op.Fair := by decide
  have hrun : Run (Disk.FairServes JsonText.lib id) Disk.empty
      [⟨.registerUser "alice" "secret", 1000⟩, ⟨.addFriendRequest 1000 1001 "hello", 1⟩] _ :=
    .snoc (.snoc .nil ⟨hname, rfl, rfl⟩) ⟨hask, rfl, rfl⟩
  have hready := ready_of_serves JsonText.lib_lawful hrun
  exact ⟨_, answers_from_history JsonText.lib_lawful (hrun.snoc (serves_restart hready))⟩

end AuraChat

import AuraChat.Storage.Restarts
import Mathlib.Data.Set.Function

set_option autoImplicit false

/-!
# Accounts

In file mode users are only added, each with the next uid and a name that no other user has, so a user
that was registered is found again by name and password after any operations and restarts.

* `Store.AccountsSound`: the uids and the names of the users;
* `users_step`: what a step does to the users;
* `verifyLogin_of_mem`: a login by the name of a user;
* **`accounts_sound`**.
-/

namespace AuraChat

open Interleave

variable {J : JsonLib} {hash : String → String} {st : Store} {d d' : Disk} {ops : List DiskOp}

/-! ## Users -/

/-- The users of a store. -/
structure Store.AccountsSound (st : Store) : Prop where
  /-- The uids are distinct. -/
  uids : (st.users.map FileUser.uid).Nodup
  /-- The names are distinct. -/
  names : (st.users.map FileUser.username).Nodup
  /-- The uids are those from 1000 up to the counter. -/
  range : 1000 ≤ st.nextUid ∧ ∀ u ∈ st.users, 1000 ≤ u.uid ∧ u.uid < st.nextUid

/-- A user has this name. -/
def Store.Taken (st : Store) (name : String) : Prop := ∃ u ∈ st.users, u.username = name

theorem any_username (st : Store) (name : String) :
    st.users.any (·.username == name) = true ↔ st.Taken name := by
  simp [Store.Taken]

/-- `register_user` refuses a name that is taken; otherwise it returns the next uid. -/
theorem registerUser_fst (hash : String → String) (name password : String) (st : Store)
    [Decidable (st.Taken name)] :
    (st.registerUser hash name password).1 = if st.Taken name then -2 else st.nextUid := by
  rw [Store.registerUser]
  by_cases h : st.Taken name
  · rw [if_pos ((any_username st name).mpr h), if_pos h]
  · rw [if_neg (mt (any_username st name).mp h), if_neg h]

/-- What a step does to the users: at most the one that is registered is added. -/
inductive UsersStep (hash : String → String) (op : DiskOp) (st st' : Store) : Prop
  | same (hu : st'.users = st.users) (hn : st'.nextUid = st.nextUid)
      (hop : ∀ name password, op = .run (.registerUser name password) → st.Taken name)
  | added (name password : String) (hop : op = .run (.registerUser name password))
      (hfree : ¬ st.Taken name) (hn : st'.nextUid = st.nextUid + 1)
      (hu : st'.users = st.users ++ [⟨st.nextUid, name, hash password⟩])

theorem users_apply (hash : String → String) (st : Store) {op : StoreOp}
    (hop : ∀ name password, op ≠ .registerUser name password) :
    (op.apply hash st).users = st.users ∧ (op.apply hash st).nextUid = st.nextUid := by
  have ho := op.outcome hash st
  generalize op.apply hash st = st', op.saves st = names at ho ⊢
  cases ho with
  | register name password => exact absurd rfl (hop name password)
  | flush hb => simp only [Store.flush, Bool.or_true, if_true, and_self]
  | same | request | accept | slip | mark | submit | drain => exact ⟨rfl, rfl⟩

/-- A registration adds the user, unless the name is taken. -/
theorem users_register (hash : String → String) (name password : String) (st : Store) :
    UsersStep hash (.run (.registerUser name password)) st
      ((StoreOp.registerUser name password).apply hash st) := by
  by_cases h : st.Taken name
  · have hsame : (StoreOp.registerUser name password).apply hash st = st := by
      simp only [StoreOp.apply, Store.registerUser, if_pos ((any_username _ _).mpr h)]
    refine .same (congrArg Store.users hsame) (congrArg Store.nextUid hsame) ?_
    rintro name' password' e
    cases e
    exact h
  · have hnew : (StoreOp.registerUser name password).apply hash st =
        { st with
          nextUid := st.nextUid + 1
          users := st.users ++ [⟨st.nextUid, name, hash password⟩] } := by
      simp only [StoreOp.apply, Store.registerUser, if_neg (mt (any_username _ _).mp h)]
    exact .added name password rfl h (congrArg Store.nextUid hnew) (congrArg Store.users hnew)

theorem users_step {op : DiskOp} (hd : d.Sound J) (hs : Disk.step J hash op d = some d') :
    UsersStep hash op d.store d'.store := by
  cases op with
  | restart =>
      rw [restart_eq hd] at hs
      obtain rfl := Option.some.inj hs
      exact .same rfl rfl fun _ _ h => by cases h
  | run op =>
      obtain rfl := Option.some.inj hs
      by_cases hop : ∃ name password, op = .registerUser name password
      · obtain ⟨name, password, rfl⟩ := hop
        exact users_register hash name password d.store
      · obtain ⟨hu, hn⟩ := users_apply hash d.store
          fun name password e => hop ⟨name, password, e⟩
        exact .same hu hn fun name password e => absurd ⟨name, password, DiskOp.run.inj e⟩ hop

theorem accountsSound_empty : ({} : Store).AccountsSound where
  uids := List.nodup_nil
  names := List.nodup_nil
  range := ⟨Int.le_refl _, fun _ hu => absurd hu List.not_mem_nil⟩

theorem UsersStep.sound {op : DiskOp} {st' : Store} (h : UsersStep hash op st st')
    (ha : st.AccountsSound) : st'.AccountsSound := by
  obtain ⟨huids, hnames, h0, hrange⟩ := ha
  cases h with
  | same hu hn => exact ⟨hu ▸ huids, hu ▸ hnames, hn ▸ h0, hn ▸ hu ▸ hrange⟩
  | added name password hop hfree hn hu =>
      refine ⟨?_, ?_, by omega, ?_⟩
      · rw [hu, List.map_append, List.map_singleton, (List.perm_append_singleton _ _).nodup_iff,
          List.nodup_cons]
        refine ⟨fun hmem => ?_, huids⟩
        obtain ⟨u, hmem, he⟩ := List.mem_map.mp hmem
        have hlt := (hrange u hmem).2
        have heq : u.uid = st.nextUid := he
        omega
      · rw [hu, List.map_append, List.map_singleton, (List.perm_append_singleton _ _).nodup_iff,
          List.nodup_cons]
        exact ⟨fun hmem => hfree (List.mem_map.mp hmem), hnames⟩
      · rw [hu, hn]
        refine List.forall_mem_append.mpr ⟨fun u hmem => ?_, List.forall_mem_singleton.mpr ⟨h0, ?_⟩⟩
        · have := hrange u hmem
          omega
        · exact Int.lt_succ _

theorem UsersStep.grows {op : DiskOp} {st' : Store} (h : UsersStep hash op st st') :
    st.users <+: st'.users := by
  cases h with
  | same hu => rw [hu]
  | added name password hop hfree hn hu =>
      rw [hu]
      exact List.prefix_append _ _

theorem UsersStep.taken_iff {op : DiskOp} {st' : Store} (h : UsersStep hash op st st') (name : String) :
    st'.Taken name ↔ st.Taken name ∨ ∃ password, op = .run (.registerUser name password) := by
  cases h with
  | same hu hn hop =>
      rw [Store.Taken, hu]
      exact ⟨.inl, fun h => h.elim id fun ⟨password, he⟩ => hop name password he⟩
  | added name' password' hop hfree hn hu =>
      subst hop
      simp only [Store.Taken, hu, List.mem_append, List.mem_singleton, or_and_right, exists_or,
        exists_eq_left, DiskOp.run.injEq, StoreOp.registerUser.injEq, exists_and_left, exists_eq',
        and_true]

/-! ## Logins -/

/-- A login by the name of a user succeeds with the password of the user. -/
theorem verifyLogin_of_mem (hash : String → String) (hnames : (st.users.map FileUser.username).Nodup)
    {u : FileUser} (hu : u ∈ st.users) (password : String) :
    st.verifyLogin hash u.username password = if u.passwordHash = hash password then u.uid else -1 := by
  rw [Store.verifyLogin]
  cases hfind : st.users.find? fun u' => u'.username == u.username && u'.passwordHash == hash password with
  | none =>
      have hno := List.find?_eq_none.mp hfind u hu
      simp only [beq_self_eq_true, Bool.true_and, beq_iff_eq] at hno
      rw [if_neg hno]
  | some u' =>
      have htest := List.find?_some hfind
      simp only [Bool.and_eq_true, beq_iff_eq] at htest
      obtain rfl := List.inj_on_of_nodup_map hnames (List.mem_of_find?_eq_some hfind) hu htest.1
      rw [if_pos htest.2]

theorem verifyLogin_of_not_taken {name : String} (h : ¬ st.Taken name) (password : String) :
    st.verifyLogin hash name password = -1 := by
  have hnone : st.users.find? (fun u => u.username == name && u.passwordHash == hash password) = none := by
    refine List.find?_eq_none.mpr fun u hu htest => h ⟨u, hu, ?_⟩
    simp only [Bool.and_eq_true, beq_iff_eq] at htest
    exact htest.1
  rw [Store.verifyLogin, hnone]

/-! ## Sequences -/

theorem accountsSound_runOps (hJ : J.Lawful) (h : Disk.runOps J hash ops = some d) :
    d.store.AccountsSound := by
  refine (reach_of_runAll ops h).invariant_reach (fun d => d.store.AccountsSound) accountsSound_empty ?_
  exact fun op d d' hr _ ha hs => (users_step (sound_of_run hJ hr) hs).sound ha

theorem taken_iff_registered (hJ : J.Lawful) (h : Disk.runOps J hash ops = some d) (name : String) :
    d.store.Taken name ↔ ∃ password, .run (.registerUser name password) ∈ ops := by
  induction ops using List.reverseRecOn generalizing d with
  | nil =>
      obtain rfl := Option.some.inj h
      exact iff_of_false (fun ⟨_, hu, _⟩ => absurd hu List.not_mem_nil)
        fun ⟨_, hp⟩ => absurd hp List.not_mem_nil
  | append_singleton pre op ih =>
      obtain ⟨d₁, hpre, -, hs⟩ := runAll_concat_eq_some.mp h
      rw [(users_step (sound_of_runOps hJ hpre) hs).taken_iff, ih hpre, ← exists_or]
      simp only [List.mem_append, List.mem_singleton, eq_comm]

theorem users_prefix_runOps (hJ : J.Lawful) {pre post : List DiskOp} {d₀ : Disk}
    (hpre : Disk.runOps J hash pre = some d₀) (h : Disk.runOps J hash (pre ++ post) = some d) :
    d₀.store.users <+: d.store.users := by
  induction post using List.reverseRecOn generalizing d with
  | nil =>
      rw [List.append_nil, hpre] at h
      obtain rfl := Option.some.inj h
      exact List.prefix_rfl
  | append_singleton post op ih =>
      rw [← List.append_assoc] at h
      obtain ⟨d₁, h₁, -, hs⟩ := runAll_concat_eq_some.mp h
      exact (ih h₁).trans (users_step (sound_of_runOps hJ h₁) hs).grows

theorem registerUser_refused_iff (hst : st.AccountsSound) (name p : String) :
    (st.registerUser hash name p).1 = -2 ↔ st.Taken name := by
  classical
  have h0 := hst.range.1
  rw [registerUser_fst]
  by_cases ht : st.Taken name
  · rw [if_pos ht]
    exact iff_of_true rfl ht
  · rw [if_neg ht]
    exact iff_of_false (by omega) ht

theorem run_registerUser_taken {name : String} (ht : d.store.Taken name) (p : String) :
    d.run J hash (.registerUser name p) = d := by
  have hany := (any_username d.store name).mpr ht
  simp only [Disk.run, StoreOp.effects, StoreOp.apply, StoreOp.saves, Store.registerUser, hany, if_true,
    saveFiles]
  rfl

/-- A user who registers is there ever after. -/
theorem mem_users_of_registered (hJ : J.Lawful) {pre post : List DiskOp} {name p : String} {d₀ : Disk}
    (hpre : Disk.runOps J hash pre = some d₀) (hfree : ¬ d₀.store.Taken name)
    (h : Disk.runOps J hash (pre ++ .run (.registerUser name p) :: post) = some d) :
    (⟨d₀.store.nextUid, name, hash p⟩ : FileUser) ∈ d.store.users := by
  have happ : pre ++ .run (.registerUser name p) :: post =
      (pre ++ [.run (.registerUser name p)]) ++ post := by simp
  have hd₁ : Disk.runOps J hash (pre ++ [.run (.registerUser name p)]) =
      some (d₀.run J hash (.registerUser name p)) :=
    runAll_concat_eq_some.mpr ⟨d₀, hpre, trivial, rfl⟩
  rw [happ] at h
  apply (users_prefix_runOps hJ hd₁ h).subset
  have hany := mt (any_username d₀.store name).mp hfree
  simp [Disk.run, StoreOp.apply, Store.registerUser, hany]

/-- **Registration and login agree.** After any operations and restarts from an empty data directory, for a
hash that tells the passwords apart: the uids and the names of the users are distinct, and the uids lie
between 1000 and the counter; a registration is refused exactly when the name was registered before, and
then changes nothing; and a login gives the uid that the registration of this name gave, if the password is
the same, and otherwise `-1`. -/
theorem accounts_sound (hJ : J.Lawful) (pws : Set String) (hinj : Set.InjOn hash pws)
    (hpws : ∀ name p, .run (.registerUser name p) ∈ ops → p ∈ pws)
    (h : Disk.runOps J hash ops = some d) :
    d.store.AccountsSound ∧
    (∀ name p, (d.store.registerUser hash name p).1 = -2 ↔
      ∃ p', .run (.registerUser name p') ∈ ops) ∧
    (∀ name p, (d.store.registerUser hash name p).1 = -2 →
      d.run J hash (.registerUser name p) = d) ∧
    (∀ pre name p post d₀, ops = pre ++ .run (.registerUser name p) :: post →
      Disk.runOps J hash pre = some d₀ → (d₀.store.registerUser hash name p).1 ≠ -2 →
      ∀ q ∈ pws, d.store.verifyLogin hash name q =
        if q = p then (d₀.store.registerUser hash name p).1 else -1) ∧
    ∀ name, (∀ p, .run (.registerUser name p) ∉ ops) → ∀ q, d.store.verifyLogin hash name q = -1 := by
  classical
  have hsound := accountsSound_runOps hJ h
  have htaken := taken_iff_registered hJ h
  have hrefused : ∀ name p, (d.store.registerUser hash name p).1 = -2 ↔ d.store.Taken name :=
    registerUser_refused_iff hsound
  refine ⟨hsound, fun name p => (hrefused name p).trans (htaken name), fun name p hno => ?_, ?_,
    fun name hnone q => verifyLogin_of_not_taken ?_ q⟩
  · exact run_registerUser_taken ((hrefused name p).mp hno) p
  · rintro pre name p post d₀ rfl hpre hnew q hq
    rw [registerUser_fst] at hnew ⊢
    have hfree : ¬ d₀.store.Taken name := fun ht => hnew (if_pos ht)
    have hlogin := verifyLogin_of_mem hash hsound.names (mem_users_of_registered hJ hpre hfree h) q
    have hp : p ∈ pws := hpws name p (by simp)
    dsimp only at hlogin
    rw [if_neg hfree, hlogin]
    exact if_congr ⟨fun he => (hinj hp hq he).symm, fun he => congrArg hash he.symm⟩ rfl rfl
  · rw [htaken]
    rintro ⟨p, hp⟩
    exact hnone p hp

/-- A user registers, the server restarts, and the user logs in. -/
theorem accounts_sound_sample : ∃ d,
    Disk.runOps JsonText.lib id [.run (.registerUser "anna" "secret"), .restart] = some d ∧
    d.store.verifyLogin id "anna" "secret" = 1000 ∧ d.store.verifyLogin id "anna" "other" = -1 := by
  let register : DiskOp := .run (.registerUser "anna" "secret")
  have hfair : ∀ op ∈ [register, .restart], op.Fair := by
    intro op hop
    obtain rfl | rfl : op = register ∨ op = .restart := by simpa using hop
    · trivial
    · trivial
  have hrun : ∃ d, Disk.runOps JsonText.lib id [register, .restart] = some d :=
    exists_runOps JsonText.lib_lawful hfair
  obtain ⟨d, hd⟩ := hrun
  have hsame : Set.InjOn (id : String → String) {"secret", "other"} := fun _ _ _ _ he => he
  have hpws : ∀ name p, .run (.registerUser name p) ∈ [register, .restart] →
      p ∈ ({"secret", "other"} : Set String) := by
    intro name p hp
    obtain ⟨-, rfl⟩ : name = "anna" ∧ p = "secret" := by simpa [register] using hp
    exact .inl rfl
  obtain ⟨-, -, -, hlogin, -⟩ := accounts_sound JsonText.lib_lawful _ hsame hpws hd
  have hnew : (Disk.empty.store.registerUser id "anna" "secret").1 = 1000 := by decide
  have hagree := hlogin [] "anna" "secret" [.restart] Disk.empty rfl rfl (by rw [hnew]; decide)
  rw [hnew] at hagree
  exact ⟨d, hd, hagree "secret" (.inl rfl), hagree "other" (.inr rfl)⟩

end AuraChat

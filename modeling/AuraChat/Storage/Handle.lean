import AuraChat.Model.Mysql

set_option autoImplicit false

/-!
# One handle for all threads

`verify_login` reads the result set that is on the handle, and `register_user` the last insert id:
these are their own as long as no other thread has made a query in between. Nothing keeps it from that:
the lock of file mode, `file_mutex_`, is not taken in MySQL mode.

A function relies on the others for two things only, each at one of its calls (`Rely`): that the result
set is not replaced before it is stored, and that the insert id is not replaced before it is read. It
does not matter if the result set is gone or if the handle is a new one.

* `DbOp.Right`: what a result has to be;
* `Label.Disturbs`: a query that comes between a query of another thread and its reading;
* `DbOp.prog_safe`: the functions return what is right, however the others act within `Rely`;
* `act_rely`: a call is within `Rely` for the others unless it disturbs one;
* **`handle_sound`**: along any run without such queries, every result is right.
-/

namespace AuraChat

open Interleave

namespace Mysql

/-! ## Results -/

variable (sql : Sql) in
/-- The result of `verify_login` is `-1` or the uid of a row that matches; a positive result of
`register_user` is the uid of the row with the name and the password. -/
def DbOp.Right (db : Database) : DbOp → Int → Prop
  | verifyLogin username password, x =>
      x = -1 ∨ ∃ u ∈ db.users, u.uid = x ∧ Matches sql username password u
  | registerUser username password, x => 0 < x → ∃ u ∈ db.users, u.uid = x ∧
      varchar 64 username = some u.username ∧ u.passwordHash = sql.sha2 password
  | addFriendRequest _ _ _, _ | insertBatch _, _ => True

instance (sql : Sql) (db : Database) (x : Int) : (op : DbOp) → Decidable (op.Right sql db x)
  | .registerUser _ _ | .verifyLogin _ _ | .addFriendRequest _ _ _ | .insertBatch _ => by
      unfold DbOp.Right; infer_instance

variable {sql : Sql} {n : ℕ}

theorem DbOp.Right.grow {db db' : Database} {op : DbOp} {x : Int} (h : op.Right sql db x)
    (hu : db.users <+: db'.users) : op.Right sql db' x := by
  cases op with
  | verifyLogin username password => exact h.imp_right fun ⟨u, hmem, hm⟩ => ⟨u, hu.subset hmem, hm⟩
  | registerUser username password =>
      intro hx
      obtain ⟨u, hmem, hm⟩ := h hx
      exact ⟨u, hu.subset hmem, hm⟩
  | addFriendRequest | insertBatch => trivial

/-! ## What a thread relies on -/

def DbOp.isLogin : DbOp → Bool
  | verifyLogin _ _ => true
  | registerUser _ _ | addFriendRequest _ _ _ | insertBatch _ => false

def DbOp.isRegister : DbOp → Bool
  | registerUser _ _ => true
  | verifyLogin _ _ | addFriendRequest _ _ _ | insertBatch _ => false

/-- The thread is about to store the result of its query in `verify_login`. -/
def DbOp.AwaitsRows (op : DbOp) (a : Option DbCall) : Prop := op.isLogin ∧ a = some .storeResult

/-- The thread is about to read the id of its `INSERT` in `register_user`. -/
def DbOp.AwaitsId (op : DbOp) (a : Option DbCall) : Prop := op.isRegister ∧ a = some .insertId

instance (op : DbOp) (a : Option DbCall) : Decidable (op.AwaitsRows a) := by
  unfold DbOp.AwaitsRows; infer_instance

instance (op : DbOp) (a : Option DbCall) : Decidable (op.AwaitsId a) := by
  unfold DbOp.AwaitsId; infer_instance

/-- What the others may do before the call `a` of a thread in `op`. -/
structure Rely (op : DbOp) (a : Option DbCall) (w w' : World) : Prop where
  users : w.db.users <+: w'.db.users
  result : op.AwaitsRows a → w'.handle.result = w.handle.result ∨ w'.handle.result = none
  id : op.AwaitsId a → w'.handle.lastInsertId = w.handle.lastInsertId ∨ w'.handle.lastInsertId = 0

theorem Rely.refl (op : DbOp) (a : Option DbCall) (w : World) : Rely op a w w where
  users := List.prefix_rfl
  result := fun _ => .inl rfl
  id := fun _ => .inl rfl

theorem Rely.trans {op : DbOp} (a : Option DbCall) (w w' w'' : World) (h : Rely op a w w')
    (h' : Rely op a w' w'') : Rely op a w w'' where
  users := List.IsPrefix.trans h.users h'.users
  result := fun ha => by
    rcases h'.result ha with e | e
    · rw [e]
      exact h.result ha
    · exact .inr e
  id := fun ha => by
    rcases h'.id ha with e | e
    · rw [e]
      exact h.id ha
    · exact .inr e

/-! ## What a call does to the others -/

/-- The call is a `SELECT`. -/
def DbCall.isSelect : DbCall → Bool
  | query q => q.isSelect
  | ping | close | init | realConnect | storeResult | insertId => false

/-- The call is an `INSERT`. -/
def DbCall.isInsert : DbCall → Bool
  | query q => q.isInsert
  | ping | close | init | realConnect | storeResult | insertId => false

variable (sql) in
/-- What `INSERT INTO users` does. -/
theorem insertUser_cases (username password : String) (db : Database) :
    db.insertUser sql username password = (.error, db) ∨
    ∃ name, varchar 64 username = some name ∧ db.nextUid ≤ intMax ∧
      db.insertUser sql username password = (.inserted db.nextUid, { db with
        nextUid := db.nextUid + 1
        users := db.users ++ [⟨db.nextUid, name, sql.sha2 password⟩] }) := by
  unfold Database.insertUser
  cases varchar 64 username with
  | none => exact .inl rfl
  | some name =>
      by_cases h : (∃ u ∈ db.users, sql.collate u.username = sql.collate name) ∨ intMax < db.nextUid
      · exact .inl (if_pos h)
      · exact .inr ⟨name, rfl, Nat.le_of_not_lt fun hlt => h (.inr hlt), if_neg h⟩

theorem insertRequest_cases (a b : Int) (msg : String) (db : Database) :
    db.insertRequest a b msg = (.error, db) ∨
    ∃ id db', db.insertRequest a b msg = (.inserted id, db') ∧ db'.users = db.users := by
  unfold Database.insertRequest
  cases varchar 255 msg with
  | none => exact .inl rfl
  | some message =>
      by_cases h : intMax < db.nextRequestId
      · exact .inl (if_pos h)
      · exact .inr ⟨_, _, if_neg h, rfl⟩

theorem exec_users (q : Statement) (db : Database) : db.users <+: (q.exec sql db).2.users := by
  cases q with
  | insertUser username password =>
      rcases insertUser_cases sql username password db with h | ⟨name, -, -, h⟩ <;>
        simp only [Statement.exec, h]
      · exact List.prefix_rfl
      · exact List.prefix_append _ _
  | insertRequest a b msg =>
      rcases insertRequest_cases a b msg db with h | ⟨id, db', h, hu⟩ <;>
        simp only [Statement.exec, h]
      · exact List.prefix_rfl
      · rw [hu]
  | createTable | selectUser | selectLogin | selectFriend | selectRequest | insertMessages =>
      exact List.prefix_rfl

theorem receive_result (q : Statement) (w : World) (hq : q.isSelect = false) :
    (w.handle.receive (q.exec sql w.db).1).result = none := by
  cases q with
  | insertUser username password =>
      rcases insertUser_cases sql username password w.db with h | ⟨name, -, -, h⟩ <;>
        simp only [Statement.exec, h, Handle.receive]
  | insertRequest a b msg =>
      rcases insertRequest_cases a b msg w.db with h | ⟨id, db', h, -⟩ <;>
        simp only [Statement.exec, h, Handle.receive]
  | createTable | insertMessages => rfl
  | selectUser | selectLogin | selectFriend | selectRequest => cases hq

theorem receive_lastInsertId (q : Statement) (w : World) (hq : q.isInsert = false) :
    (w.handle.receive (q.exec sql w.db).1).lastInsertId = w.handle.lastInsertId := by
  cases q with
  | insertUser | insertRequest | insertMessages => cases hq
  | createTable | selectUser | selectLogin | selectFriend | selectRequest => rfl

variable (sql) in
/-- **A call is within what another thread relies on**, unless it is a `SELECT` while that thread waits
for its rows, or an `INSERT` while it waits for its id. -/
theorem act_rely (c : DbCall) (ok : Bool) (w : World) {op : DbOp} {a : Option DbCall}
    (hrows : ¬ (c.isSelect ∧ op.AwaitsRows a)) (hid : ¬ (c.isInsert ∧ op.AwaitsId a)) :
    Rely op a w (act sql c ok w).2 := by
  cases c with
  | ping | insertId => exact Rely.refl op a w
  | close | init => exact ⟨List.prefix_rfl, fun _ => .inr rfl, fun _ => .inr rfl⟩
  | realConnect | storeResult => exact ⟨List.prefix_rfl, fun _ => .inr rfl, fun _ => .inl rfl⟩
  | query q =>
      by_cases h : (ok && w.handle.isOpen) = true
      · have hact : (act sql (.query q) ok w).2 =
            ⟨(q.exec sql w.db).2, w.handle.receive (q.exec sql w.db).1⟩ := by
          simp only [act, h, if_true]
        rw [hact]
        refine ⟨exec_users q w.db, fun ha => .inr (receive_result q w ?_), fun ha => .inl
          (receive_lastInsertId q w ?_)⟩
        · exact Bool.eq_false_iff.mpr fun hq => hrows ⟨hq, ha⟩
        · exact Bool.eq_false_iff.mpr fun hq => hid ⟨hq, ha⟩
      · have hact : (act sql (.query q) ok w).2 =
            { w with handle := { w.handle with result := none } } := by
          simp only [act, h]
          rfl
        rw [hact]
        exact ⟨List.prefix_rfl, fun _ => .inr rfl, fun _ => .inl rfl⟩

variable (sql) in
theorem act_users (c : DbCall) (ok : Bool) (w : World) :
    w.db.users <+: (act sql c ok w).2.db.users := by
  -- the writer loop waits for nothing
  have h : Rely (.insertBatch []) none w (act sql c ok w).2 :=
    act_rely sql c ok w (fun h => Bool.false_ne_true h.2.1) fun h => Bool.false_ne_true h.2.1
  exact h.users

/-! ## The functions -/

theorem toInt_of_le {id : ℕ} (h : id ≤ intMax) : toInt id = id := by
  unfold intMax at h
  unfold toInt
  rw [Int.bmod_def]
  omega

variable {op : DbOp}

/-- A query: the answer of the server, or a failure. -/
theorem safe_query {q : Statement} {Q : Bool → World → Prop} {w : World} (hfail : ∀ w, Q false w)
    (hok : ∀ w : World, (q.exec sql w.db).1 ≠ .error →
      Q true ⟨(q.exec sql w.db).2, w.handle.receive (q.exec sql w.db).1⟩) :
    Prog.Safe (act sql) (Rely op) (mysqlQuery q) Q w := by
  intro w' ok _
  change Q (act sql (.query q) ok w').1 (act sql (.query q) ok w').2
  simp only [act]
  split_ifs
  · by_cases he : (q.exec sql w'.db).1 = .error
    · rw [decide_eq_false (not_not.mpr he)]
      exact hfail _
    · rw [decide_eq_true he]
      exact hok w' he
  · exact hfail _

variable (sql) in
theorem right_firstRow (username password : String) (db : Database) :
    (DbOp.verifyLogin username password).Right sql db
      (((db.users.filter fun u => Matches sql username password u).map (·.uid)).headD (-1)) := by
  cases hrows : db.users.filter fun u => Matches sql username password u with
  | nil => exact .inl rfl
  | cons u rows =>
      obtain ⟨hmem, hm⟩ := List.mem_filter.mp (hrows ▸ List.mem_cons_self (a := u))
      exact .inr ⟨u, hmem, rfl, of_decide_eq_true hm⟩

theorem verifyLogin_safe (username password : String) (w : World) :
    Prog.Safe (act sql) (Rely (.verifyLogin username password)) (verifyLogin username password)
      (fun x w => (DbOp.verifyLogin username password).Right sql w.db x) w := by
  rw [verifyLogin, Prog.safe_bind]
  refine Prog.safe_of_forall fun connected w => ?_
  cases connected with
  | false => exact .inl rfl
  | true =>
      rw [if_pos rfl, Prog.safe_bind]
      refine safe_query (fun w => .inl rfl) fun w _ => ?_
      rw [if_pos rfl, Prog.safe_bind]
      intro w' ok hr
      -- the rows are those of the query, or there are none
      change (DbOp.verifyLogin username password).Right sql w'.db
        ((w'.handle.result.getD []).headD (-1))
      rcases hr.result ⟨rfl, rfl⟩ with e | e
      · rw [e]
        exact (right_firstRow sql username password w.db).grow hr.users
      · rw [e]
        exact .inl rfl

theorem registerUser_safe (username password : String) (w : World) :
    Prog.Safe (act sql) (Rely (.registerUser username password)) (registerUser username password)
      (fun x w => (DbOp.registerUser username password).Right sql w.db x) w := by
  have hneg : ∀ x : Int, x ≤ 0 → ∀ db : Database,
      (DbOp.registerUser username password).Right sql db x :=
    fun x hx db h => absurd h (Int.not_lt.mpr hx)
  rw [registerUser, Prog.safe_bind]
  refine Prog.safe_of_forall fun connected w => ?_
  cases connected with
  | false => exact hneg (-1) (by decide) w.db
  | true =>
      rw [if_pos rfl, Prog.safe_bind]
      refine Prog.safe_of_forall fun taken w => ?_
      cases taken with
      | true => exact hneg (-2) (by decide) w.db
      | false =>
          rw [if_neg Bool.false_ne_true, insertRow, Prog.safe_bind]
          refine safe_query (fun w => hneg (-1) (by decide) w.db) fun w he => ?_
          rw [if_pos rfl, Prog.safe_bind]
          intro w' ok hr
          change (DbOp.registerUser username password).Right sql w'.db (toInt w'.handle.lastInsertId)
          rcases insertUser_cases sql username password w.db with h | ⟨name, hname, hle, h⟩
          · exact absurd (congrArg Prod.fst h) he
          · have hexec : (Statement.insertUser username password).exec sql w.db = _ := h
            have hid := hr.id ⟨rfl, rfl⟩
            have husers := hr.users
            rw [hexec] at hid husers
            rcases hid with e | e
            · intro _
              have hrow := husers.subset (List.mem_append_right _ (List.mem_singleton.mpr rfl))
              refine ⟨_, hrow, ?_, hname, rfl⟩
              rw [e]
              exact (toInt_of_le hle).symm
            · rw [e]
              exact hneg 0 le_rfl w'.db

/-- **A function returns what is right, however the others act within what it relies on.** -/
theorem DbOp.prog_safe (op : DbOp) (w : World) :
    Prog.Safe (act sql) (Rely op) op.prog (fun x w => op.Right sql w.db x) w := by
  cases op with
  | verifyLogin username password => exact verifyLogin_safe username password w
  | registerUser username password => exact registerUser_safe username password w
  | addFriendRequest | insertBatch => exact Prog.safe_of_forall fun _ _ => trivial

/-! ## Runs -/

/-- The thread makes a query while another one waits for what its own query has left on the handle: a
`SELECT` while `verify_login` is to store its rows, or an `INSERT` while `register_user` is to read its
id. -/
def Label.Disturbs (s : Server n) : Label n → Prop
  | .start _ _ => False
  | .run c _ => ∃ r ∈ s.threads c, ∃ a ∈ r.rest.next, ∃ c', c' ≠ c ∧ ∃ r' ∈ s.threads c',
      (a.isSelect ∧ r'.op.AwaitsRows r'.rest.next) ∨ (a.isInsert ∧ r'.op.AwaitsId r'.rest.next)

instance (s : Server n) : (l : Label n) → Decidable (l.Disturbs s)
  | .start _ _ | .run _ _ => by unfold Label.Disturbs; infer_instance

variable (sql) in
/-- The functions under way are safe, and those that have returned were right. -/
structure Sound (s : Server n) : Prop where
  threads : ∀ c, ∀ r ∈ s.threads c, Prog.Safe (act sql) (Rely r.op) r.rest
    (fun x w => r.op.Right sql w.db x) s.world
  log : ∀ e ∈ s.log, e.1.Right sql s.world.db e.2

theorem sound_step {l : Label n} {s s' : Server n} (hc : ¬ l.Disturbs s) (h : Sound sql s)
    (hs : step sql l s = some s') : Sound sql s' := by
  cases l with
  | start c op =>
      simp only [step] at hs
      split_ifs at hs
      obtain rfl := Option.some.inj hs
      refine ⟨fun c' r hr => ?_, h.log⟩
      by_cases e : c' = c
      · simp only [e, Option.mem_def, Function.update_self] at hr
        obtain rfl := Option.some.inj hr
        exact DbOp.prog_safe op s.world
      · simp only [Option.mem_def, Function.update_of_ne e] at hr
        exact h.threads c' r hr
  | run c ok =>
      obtain ⟨r, hrun, rfl⟩ := Option.map_eq_some_iff.mp hs
      have hsafe := h.threads c r hrun
      obtain ⟨op, rest⟩ := r
      cases rest with
      | ret x =>
          -- the function returns
          refine ⟨fun c' r' hr' => ?_, ?_⟩
          · simp only [Server.resume, Option.mem_def, Function.update_apply] at hr'
            split_ifs at hr'
            exact h.threads c' r' hr'
          · exact List.forall_mem_append.mpr ⟨h.log, List.forall_mem_singleton.mpr hsafe⟩
      | call a k =>
          -- what the call does to the functions of the other threads
          have hrely : ∀ c', c' ≠ c → ∀ r' ∈ s.threads c',
              Rely r'.op r'.rest.next s.world (act sql a ok s.world).2 := by
            intro c' hne r' hr'
            refine act_rely sql a ok s.world (fun hb => hc ?_) fun hb => hc ?_
            · exact ⟨_, hrun, a, rfl, c', hne, r', hr', .inl hb⟩
            · exact ⟨_, hrun, a, rfl, c', hne, r', hr', .inr hb⟩
          refine ⟨fun c' r' hr' => ?_, fun e he => (h.log e he).grow (act_users sql a ok s.world)⟩
          by_cases e : c' = c
          · simp only [Server.resume, e, Option.mem_def, Function.update_self] at hr'
            obtain rfl := Option.some.inj hr'
            exact hsafe.step (Rely.refl op) ok
          · simp only [Server.resume, Option.mem_def, Function.update_of_ne e] at hr'
            exact (h.threads c' r' hr').stable Rely.trans (fun _ _ _ hq hr => hq.grow hr.users)
              (hrely c' e r' hr')

/-- The threads before their first call. -/
def Server.start (n : ℕ) (db : Database) : Server n := { world := { db := db } }

/-- **When the threads do not mix up their results.** Along any run of the threads on any database in
which no query disturbs another thread, every result is right. -/
theorem handle_sound (sql : Sql) (n : ℕ) (db : Database) {s : Server n}
    (h : Reach (step sql) (fun l s => ¬ l.Disturbs s) (Server.start n db) s) :
    ∀ e ∈ s.log, e.1.Right sql s.world.db e.2 := by
  have hstart : Sound sql (Server.start n db) := ⟨fun _ _ h => (by cases h), fun _ h => (by cases h)⟩
  exact (h.invariant (Sound sql) hstart fun _ _ _ => sound_step).log

namespace Sample

/-- Names are compared as they are, and passwords are stored as they are. -/
def plain : Sql := ⟨id, id⟩

def twoUsers : Database := { users := [⟨1, "alice", "a"⟩, ⟨2, "bob", "b"⟩], nextUid := 3 }

/-- A thread makes some calls, all of which reach the server. -/
def runs (c : Caller 2) (k : ℕ) : List (Label 2) := List.replicate k (.run c true)

/-- A user is registered on one thread and logs in on the other, while the writer loop inserts. -/
def registerThenLogin : List (Label 2) :=
  .start (some 0) (.registerUser "carol" "c") :: runs (some 0) 4 ++
    .start none (.insertBatch [⟨0, 1, 2, [], true⟩]) :: runs none 1 ++ runs (some 0) 2 ++
    runs none 2 ++ .start (some 1) (.verifyLogin "carol" "c") :: runs (some 1) 4

/-- Two logins at the same time. -/
def twoLogins : List (Label 2) :=
  [.start (some 0) (.verifyLogin "alice" "x"), .start (some 1) (.verifyLogin "bob" "b")] ++
    runs (some 0) 2 ++ runs (some 1) 2 ++ runs (some 0) 2

/-- Two registrations at the same time. -/
def twoRegistrations : List (Label 2) :=
  [.start (some 0) (.registerUser "carol" "c"), .start (some 1) (.registerUser "dave" "d")] ++
    runs (some 0) 4 ++ runs (some 1) 4 ++ runs (some 0) 2

end Sample

theorem handle_sound_sample : ∃ s : Server 2,
    Reach (step Sample.plain) (fun l s => ¬ l.Disturbs s) (Server.start 2 Sample.twoUsers) s ∧
    s.log = [(.registerUser "carol" "c", 3), (.insertBatch [⟨0, 1, 2, [], true⟩], 0),
      (.verifyLogin "carol" "c", 3)] ∧
    ∀ e ∈ s.log, e.1.Right Sample.plain s.world.db e.2 := by
  have hrun : ∃ s : Server 2,
      Reach (step Sample.plain) (fun l s => ¬ l.Disturbs s) (Server.start 2 Sample.twoUsers) s ∧
      s.log = [(.registerUser "carol" "c", 3), (.insertBatch [⟨0, 1, 2, [], true⟩], 0),
        (.verifyLogin "carol" "c", 3)] :=
    exists_reach Sample.registerThenLogin (by decide)
  obtain ⟨s, hr, hlog⟩ := hrun
  exact ⟨s, hr, hlog, handle_sound Sample.plain 2 Sample.twoUsers hr⟩

/-- **Results of other threads.** A login with a wrong password gets the uid of the user who logs in on
the other thread, and a registration the uid of the user who is registered there. -/
theorem results_mixed_up :
    (∃ s : Server 2,
      Reach (step Sample.plain) (fun _ _ => True) (Server.start 2 Sample.twoUsers) s ∧
      s.log = [(.verifyLogin "alice" "x", 2)] ∧
      ¬ (DbOp.verifyLogin "alice" "x").Right Sample.plain s.world.db 2) ∧
    ∃ s : Server 2,
      Reach (step Sample.plain) (fun _ _ => True) (Server.start 2 Sample.twoUsers) s ∧
      s.log = [(.registerUser "carol" "c", 4)] ∧
      ¬ (DbOp.registerUser "carol" "c").Right Sample.plain s.world.db 4 :=
  ⟨exists_reach Sample.twoLogins (by decide), exists_reach Sample.twoRegistrations (by decide)⟩

end Mysql

end AuraChat

import LazyPock.Auth.Emails
import Mathlib.Data.List.Perm.Subperm

/-!
# What a one-time token is for

Runs of the e-mail flows: requests and confirmations by any clients, and changes of the records in
between. A token is meant to do only what it was minted for, and a token that was mailed to another
address than the account's is meant to do nothing for it.

The table of tokens does not say which flow a token belongs to, and nobody compares its address with
the account's. What the table does guarantee is that a token is accepted at most once and within its
lifetime; `tokens_serve_their_purpose` says that the rest holds in every run in which no token is
presented to another flow or after the address has changed.

## Main definitions

* `Emails.Flow`, `Emails.Call`, `Emails.World`, `Emails.step`.
* `Emails.minted`, `Emails.accepted`: what a history says of the tokens.
* `Emails.ServePurpose`, `Emails.Misused`.

## Main results

* `Emails.tokens_serve_their_purpose`, `Emails.change_token_verifies`.
-/

namespace LazyPock.Emails

open Machine Text Saga List

/-! ### Runs -/

inductive Flow where
  | verification
  | passwordReset
  | emailChange
deriving DecidableEq

/-- A request of either half. -/
inductive Call where
  | requestVerification (fresh : Fresh) (body : Result String)
  | requestPasswordReset (fresh : Fresh) (body : Result String)
  | requestEmailChange (fresh : Fresh) (principal : Principal) (body : Result String)
  | confirm (request : Confirm)

def Confirm.flow : Confirm → Flow
  | verification _ => .verification
  | passwordReset _ _ => .passwordReset
  | emailChange _ _ => .emailChange

def Call.flow : Call → Flow
  | requestVerification _ _ => .verification
  | requestPasswordReset _ _ => .passwordReset
  | requestEmailChange _ _ _ => .emailChange
  | confirm request => request.flow

/-- What a request has written, for a flow and under a spelling of the collection. -/
structure Event where
  flow : Flow
  collection : String
  entry : Entry

/-- The database, and what has happened so far, the last first. -/
structure World where
  db : Db
  history : List Event

inductive Action where
  | call (call : Call) (answers : Answers) (collection : String)
  /-- Records are created, updated and deleted. -/
  | records (accounts : String → Option Accounts)

section Model

variable (env : Env) (schema : Schema)

/-- The database with an empty journal. -/
def Db.forget (db : Db) : Db := ⟨db.accounts, db.sessions, db.otps, []⟩

/-- What the database holds after a request, with an empty journal before it. -/
def Call.after (answers : Answers) (collection : String) (db : Db) : Call → Db
  | requestVerification fresh body | requestPasswordReset fresh body =>
    (requestEmail env schema answers fresh collection body db.forget).2
  | requestEmailChange fresh principal body =>
    (Emails.requestEmailChange env schema answers fresh collection principal body db.forget).2
  | confirm request => (request.run env schema answers collection db.forget).2

def step (world : World) : Action → World
  | .call call answers collection =>
    let db := call.after env schema answers collection world.db
    ⟨db, db.journal.map (⟨call.flow, collection, ·⟩) ++ world.history⟩
  | .records accounts => { world with db := { world.db with accounts := accounts } }

/-! ### What tokens are for -/

/-- The tokens that were minted, with their flows. -/
def minted (history : List Event) : List (Flow × Otp) :=
  history.filterMap fun event => match event.entry with
    | .minted otp => some (event.flow, otp)
    | _ => none

/-- The tokens that were accepted, with the flows that accepted them. -/
def accepted (history : List Event) : List (Flow × Otp) :=
  history.filterMap fun event => match event.entry with
    | .consumed otp _ => some (event.flow, otp)
    | _ => none

/-- The token was mailed to the address of the account. -/
def Reaches (target : Collection) (otp : Otp) (row : Row) : Prop :=
  ∃ address email, otp.sentTo = some address ∧ row.text (emailField target) = some email ∧
    env.lower address = env.lower email

/-- A token does only what it was minted for. -/
structure ServePurpose (history : List Event) : Prop where
  /-- A token is accepted by its own flow, as often as it was minted. -/
  ownFlow : (accepted history).Subperm (minted history)
  lifetime : ∀ event ∈ history, ∀ otp time, event.entry = .consumed otp time →
    time - tokenTtl ≤ otp.createdAt
  /-- What is written for a token, the address apart, is written for the address it was mailed to. -/
  reaches : ∀ event ∈ history, event.flow ≠ .emailChange → ∀ otp row,
    event.entry = .wrote otp row →
      ∃ target, schema.get event.collection = some target ∧ Reaches env target otp row

/-- A valid request presents a token, and it is consumed. -/
def Confirm.Presents (answers : Answers) (collection : String) (db : Db) (resolved : Resolved)
    (otp : Otp) : Confirm → Prop
  | verification body => Addresses schema answers collection resolved ∧ ∃ token, body = .ok token ∧
      Spends env answers db collection token otp
  | passwordReset body _ => Addresses schema answers collection resolved ∧ ∃ request,
      body = .ok request ∧ validatePassword request.password request.passwordConfirm = .ok () ∧
      Spends env answers db collection request.token otp
  | emailChange principal body => Addresses schema answers collection resolved ∧ ∃ request userId,
      body = .ok request ∧ requireMember collection principal = .ok userId ∧
      Owns env answers db collection resolved.collection request userId ∧
      Spends env answers db collection request.token otp

/-- The account of the token is written, the address apart. -/
def Confirm.Writes (answers : Answers) (collection : String) (db : Db) (otp : Otp) (row : Row) :
    Confirm → Prop
  | verification _ => isOk (answers .update) = true ∧
      ∃ accounts, db.accounts collection = some accounts ∧ accounts.find otp.recordRef = some row
  | passwordReset body hasher => isOk (answers .update) = true ∧
      (∃ accounts, db.accounts collection = some accounts ∧
        accounts.find otp.recordRef = some row) ∧
      ∃ request, body = .ok request ∧ isOk (hashPassword request.password hasher) = true
  | emailChange _ _ => False

/-- A token is presented that another flow minted, or whose address is not the account's. -/
def Misused (world : World) : Action → Prop
  | .call (.confirm request) answers collection => ∃ resolved otp,
      request.Presents env schema answers collection world.db resolved otp ∧
      ((∃ flow, flow ≠ request.flow ∧ (flow, otp) ∈ minted world.history) ∨
        ∃ row, request.Writes answers collection world.db otp row ∧
          ¬ Reaches env resolved.collection otp row)
  | _ => False

end Model

@[simp] theorem Db.forget_otps (db : Db) : db.forget.otps = db.otps := rfl

@[simp] theorem Db.forget_journal (db : Db) : db.forget.journal = [] := rfl

/-! ### What a request does to the tokens -/

variable {env : Env} {schema : Schema} {answers : Answers} {collection : String} {db : Db}

/-- What a request half does: tokens may have been swept, and one may have been minted. -/
def Mints (db after : Db) : Prop :=
  after.otps.rows.Sublist db.otps.rows ∧ after.journal = db.journal ∨
    ∃ otp, after.otps.rows.Sublist (otp :: db.otps.rows) ∧ after.journal = .minted otp :: db.journal

theorem mints_self (db : Db) : Mints db db := .inl ⟨.refl _, rfl⟩

theorem mints_insertOtp (otp : Int → Otp) : Mints db (insertOtp answers otp db).2 := by
  unfold insertOtp
  cases hanswer : answers .insert with
  | error e =>
    rw [statement_of_error hanswer]
    exact mints_self db
  | ok now =>
    rw [statement_of_ok hanswer, commit, Tx.of_apply, Otps.insert]
    by_cases hid : (otp now).id ∈ db.otps.rows.map Otp.id
    · rw [if_pos hid]
      exact mints_self db
    · rw [if_neg hid]
      by_cases hkey : (otp now).key ∉ db.otps.rows.map Otp.key
      · rw [dif_pos hkey]
        exact .inr ⟨otp now, .refl _, rfl⟩
      · rw [dif_neg hkey]
        exact mints_self db

theorem mints_mint (fresh : Fresh) (recordRef sentTo : String) :
    Mints db (mint env answers fresh collection recordRef sentTo db).2 := by
  unfold mint
  have hswept : ∀ swept : Db, swept.otps.rows.Sublist db.otps.rows → swept.journal = db.journal →
      ∀ after, Mints swept after → Mints db after := by
    rintro swept hrows hjournal after (⟨hsub, hsame⟩ | ⟨otp, hsub, hone⟩)
    · exact .inl ⟨hsub.trans hrows, hsame.trans hjournal⟩
    · exact .inr ⟨otp, hsub.trans (hrows.cons_cons _), hone.trans (by rw [hjournal])⟩
  cases hanswer : answers .sweep with
  | error e =>
    rw [sweep, bind_of_error (statement_of_error hanswer _)]
    exact mints_self db
  | ok now =>
    have hsweep : sweep answers collection db = (.ok (), db.swept collection now) :=
      statement_eq_ok.mpr ⟨now, hanswer, rfl⟩
    rw [bind_of_ok hsweep]
    refine hswept (db.swept collection now) filter_sublist rfl _ ?_
    exact (Quiet.lift _).bind_snd (mints_self _) fun raw _ => mints_insertOtp _

theorem mints_requestEmail (fresh : Fresh) (body : Result String) :
    Mints db (requestEmail env schema answers fresh collection body db).2 := by
  unfold requestEmail findAccount
  refine (Quiet.lift _).bind_snd (mints_self db) fun email _ => ?_
  refine (Quiet.lift _).bind_snd (mints_self db) fun resolved _ => ?_
  refine (Quiet.lift _).bind_snd (mints_self db) fun _ _ => ?_
  refine (quiet_connect _).bind_snd (mints_self db) fun _ _ => ?_
  refine (quiet_reading _ _ _).bind_snd (mints_self db) fun found _ => ?_
  cases found with
  | none => exact mints_self db
  | some row =>
    refine (Quiet.snd_bind (fun _ => quiet_reading _ _ _) db).symm ▸ ?_
    exact mints_mint fresh row.id email

theorem mints_requestEmailChange (fresh : Fresh) (principal : Principal) (body : Result String) :
    Mints db (requestEmailChange env schema answers fresh collection principal body db).2 := by
  unfold requestEmailChange
  refine (Quiet.lift _).bind_snd (mints_self db) fun newEmail _ => ?_
  refine (Quiet.lift _).bind_snd (mints_self db) fun resolved _ => ?_
  refine (Quiet.lift _).bind_snd (mints_self db) fun _ _ => ?_
  refine (Quiet.lift _).bind_snd (mints_self db) fun userId _ => ?_
  refine (Quiet.lift _).bind_snd (mints_self db) fun _ _ => ?_
  refine (quiet_connect _).bind_snd (mints_self db) fun _ _ => ?_
  rw [Quiet.snd_bind fun _ => quiet_reading _ _ _]
  exact mints_mint fresh userId (trim newEmail)

/-- What a confirm half does: a token that it is presented may have been consumed, and the account
of the token written. -/
def Redeems (env : Env) (schema : Schema) (answers : Answers) (collection : String)
    (request : Confirm) (db after : Db) : Prop :=
  after.otps = db.otps ∧ after.journal = db.journal ∨
    ∃ resolved otp now, request.Presents env schema answers collection db resolved otp ∧
      otp ∈ db.otps.rows ∧ now - tokenTtl ≤ otp.createdAt ∧
      after.otps = (db.spend otp now).otps ∧
      (after.journal = .consumed otp now :: db.journal ∨
        ∃ row, after.journal = .wrote otp row :: .consumed otp now :: db.journal ∧
          (request.flow ≠ .emailChange → request.Writes answers collection db otp row))

/-- A row of the table of the path may have been written, for a token. -/
def Notes (answers : Answers) (collection : String) (otp : Otp) (id : String) (db after : Db) : Prop :=
  after.journal = db.journal ∨ ∃ accounts row, isOk (answers .update) = true ∧
    db.accounts collection = some accounts ∧ accounts.find id = some row ∧
    after.journal = .wrote otp row :: db.journal

theorem notes_updateAccount (otp : Otp) (id : String) (f : Row → Row) (breaks : Accounts → Bool) :
    Notes answers collection otp id db
      (updateAccount env answers collection otp id f breaks db).2 := by
  cases hr : updateAccount env answers collection otp id f breaks db with
  | mk r after =>
    cases r with
    | error e => exact .inl (by rw [eq_of_statement_error hr])
    | ok a =>
      obtain ⟨now, hnow, -⟩ := statement_eq_ok.mp hr
      obtain ⟨accounts, haccounts, rfl⟩ := updateAccount_eq_ok hr
      cases hrow : accounts.find id with
      | none => exact .inl (by simp [Db.write, Db.note, hrow])
      | some row =>
        exact .inr ⟨accounts, row, by simp [hnow], haccounts, hrow, by simp [Db.write, Db.note, hrow]⟩

theorem Notes.of_journal {otp : Otp} {id : String} {after later : Db}
    (h : Notes answers collection otp id db after) (hlater : later.journal = after.journal) :
    Notes answers collection otp id db later := by
  unfold Notes
  rwa [hlater]

theorem keeps_journal_load (target : Collection) (id : String) :
    Keeps Db.journal (do
      let row ← loadAccount answers target id
      pure (some row)) :=
  ((quiet_reading _ _ _).bind fun _ _ => rfl).keeps _

theorem keeps_journal_revoke (collectionId userId : String) :
    Keeps Db.journal (do
      revokeForUser answers collectionId userId
      pure (none : Option Row)) := by
  refine Keeps.bind (keeps_statement fun _ s a t h => ?_) fun _ _ => rfl
  obtain ⟨-, rfl⟩ := Prod.mk.inj (Except.ok.inj h)
  rfl

theorem notes_markVerified (target : Collection) (otp : Otp) :
    Notes answers collection otp otp.recordRef db
      (markVerified env answers collection target otp db).2 :=
  (notes_updateAccount _ _ _ _).of_journal
    (Keeps.snd_bind (fun _ => keeps_journal_load target otp.recordRef) db)

theorem notes_setPassword (env : Env) (answers : Answers) (collection : String) (db : Db)
    (target : Collection) (hashed : Result String) (otp : Otp) :
    (setPassword env answers collection target hashed otp db).2.journal = db.journal ∨
      isOk hashed = true ∧ Notes answers collection otp otp.recordRef db
        (setPassword env answers collection target hashed otp db).2 := by
  unfold setPassword
  refine (Quiet.lift _).bind_snd (Q := fun after => after.journal = db.journal ∨
    isOk hashed = true ∧ Notes answers collection otp otp.recordRef db after) (.inl rfl)
      fun hash hhash => .inr ⟨isOk_iff.mpr ⟨hash, hhash⟩, ?_⟩
  exact (notes_updateAccount _ _ _ _).of_journal
    (Keeps.snd_bind (fun _ => keeps_journal_revoke target.id otp.recordRef) db)

theorem notes_moveAddress (target : Collection) (userId : String) (otp : Otp) :
    Notes answers collection otp userId db
      (moveAddress env answers collection target userId otp db).2 := by
  unfold moveAddress
  refine (Quiet.lift _).bind_snd (.inl rfl) fun newEmail _ => ?_
  exact (notes_updateAccount _ _ _ _).of_journal
    (Keeps.snd_bind (fun _ => keeps_journal_load target userId) db)

/-- What holds where the token is not found, and after it was consumed. -/
theorem redeem_snd {α : Type} {token : String} {rest : Otp → Saga Db Error α} {Q : Db → Prop}
    (hsame : Q db) (hspent : ∀ otp now, answers .consume = .ok now →
      db.otps.find collection (env.hashToken token) now = some otp →
        Q (rest otp (db.spend otp now)).2) :
    Q (redeem env answers collection token rest db).2 := by
  cases hnow : answers .consume with
  | error e =>
    rw [redeem_of_error hnow]
    exact hsame
  | ok now =>
    cases hfind : db.otps.find collection (env.hashToken token) now with
    | none =>
      rw [redeem_of_none hnow hfind]
      exact hsame
    | some otp =>
      rw [redeem_of_some hnow hfind]
      exact hspent otp now hnow hfind

theorem le_of_find {otps : Otps} {hash : String} {now : Int} {otp : Otp}
    (h : otps.find collection hash now = some otp) : now - tokenTtl ≤ otp.createdAt := by
  have hp := List.find?_some h
  simp only [Bool.and_eq_true, decide_eq_true_eq] at hp
  exact hp.2

theorem redeems_confirmVerification (body : Result String) :
    Redeems env schema answers collection (.verification body) db
      (confirmVerification env schema answers collection body db).2 := by
  have hself : Redeems env schema answers collection (.verification body) db db :=
    .inl ⟨rfl, rfl⟩
  unfold confirmVerification
  refine (Quiet.lift _).bind_snd hself fun token hbody => ?_
  refine (Quiet.lift _).bind_snd hself fun resolved hresolved => ?_
  refine (Quiet.lift _).bind_snd hself fun _ hauth => ?_
  refine (quiet_connect _).bind_snd hself fun _ hconnects => ?_
  refine redeem_snd hself fun otp now hnow hfind => .inr ⟨resolved, otp, now, ?_, mem_of_find hfind,
    le_of_find hfind, keeps_markVerified _, ?_⟩
  · exact ⟨⟨hresolved, requireAuthCollection_eq_ok.mp hauth, connect_eq_ok.mp hconnects⟩, token,
      hbody, now, hnow, hfind⟩
  · refine (notes_markVerified resolved.collection otp).imp id ?_
    rintro ⟨accounts, row, hupdate, haccounts, hrow, hjournal⟩
    exact ⟨row, hjournal, fun _ => ⟨hupdate, accounts, haccounts, hrow⟩⟩

theorem redeems_confirmPasswordReset (body : Result NewPassword) (hasher : Except String String) :
    Redeems env schema answers collection (.passwordReset body hasher) db
      (confirmPasswordReset env schema answers collection body hasher db).2 := by
  have hself : Redeems env schema answers collection (.passwordReset body hasher) db db :=
    .inl ⟨rfl, rfl⟩
  unfold confirmPasswordReset
  refine (Quiet.lift _).bind_snd hself fun request hbody => ?_
  refine (Quiet.lift _).bind_snd hself fun _ hvalid => ?_
  refine (Quiet.lift _).bind_snd hself fun resolved hresolved => ?_
  refine (Quiet.lift _).bind_snd hself fun _ hauth => ?_
  refine (quiet_connect _).bind_snd hself fun _ hconnects => ?_
  refine redeem_snd hself fun otp now hnow hfind => .inr ⟨resolved, otp, now, ?_, mem_of_find hfind,
    le_of_find hfind, keeps_setPassword _, ?_⟩
  · exact ⟨⟨hresolved, requireAuthCollection_eq_ok.mp hauth, connect_eq_ok.mp hconnects⟩, request,
      hbody, hvalid, now, hnow, hfind⟩
  · rcases notes_setPassword env answers collection (db.spend otp now) resolved.collection
      (hashPassword request.password hasher) otp with
      hjournal | ⟨hhashed, hjournal | ⟨accounts, row, hupdate, haccounts, hrow, hjournal⟩⟩
    · exact .inl hjournal
    · exact .inl hjournal
    · exact .inr ⟨row, hjournal, fun _ => ⟨hupdate, ⟨accounts, haccounts, hrow⟩, request, hbody,
        hhashed⟩⟩

theorem redeems_confirmEmailChange (principal : Principal) (body : Result ConfirmEmailChange) :
    Redeems env schema answers collection (.emailChange principal body) db
      (confirmEmailChange env schema answers collection principal body db).2 := by
  have hself : Redeems env schema answers collection (.emailChange principal body) db db :=
    .inl ⟨rfl, rfl⟩
  unfold confirmEmailChange
  refine (Quiet.lift _).bind_snd hself fun request hbody => ?_
  refine (Quiet.lift _).bind_snd hself fun resolved hresolved => ?_
  refine (Quiet.lift _).bind_snd hself fun _ hauth => ?_
  refine (Quiet.lift _).bind_snd hself fun userId hmember => ?_
  refine (quiet_connect _).bind_snd hself fun _ hconnects => ?_
  refine (quiet_checkOwner _ _ _).bind_snd hself fun _ howns => ?_
  refine redeem_snd hself fun otp now hnow hfind => .inr ⟨resolved, otp, now, ?_, mem_of_find hfind,
    le_of_find hfind, keeps_moveAddress _, ?_⟩
  · exact ⟨⟨hresolved, requireAuthCollection_eq_ok.mp hauth, connect_eq_ok.mp hconnects⟩, request,
      userId, hbody, hmember, checkOwner_eq_ok.mp howns, now, hnow, hfind⟩
  · refine (notes_moveAddress resolved.collection userId otp).imp id ?_
    rintro ⟨accounts, row, -, -, -, hjournal⟩
    exact ⟨row, hjournal, fun hflow => absurd rfl hflow⟩

/-- Every confirm half. -/
theorem redeems_run (request : Confirm) :
    Redeems env schema answers collection request db
      (request.run env schema answers collection db).2 := by
  cases request with
  | verification body => exact redeems_confirmVerification body
  | passwordReset body hasher => exact redeems_confirmPasswordReset body hasher
  | emailChange principal body => exact redeems_confirmEmailChange principal body

/-! ### What a history keeps -/

section Histories

variable {history : List Event} {flow : Flow} {otp : Otp}

@[simp] theorem minted_minted :
    minted (⟨flow, collection, .minted otp⟩ :: history) = (flow, otp) :: minted history := rfl

@[simp] theorem minted_consumed {time : Int} :
    minted (⟨flow, collection, .consumed otp time⟩ :: history) = minted history := rfl

@[simp] theorem minted_wrote {row : Row} :
    minted (⟨flow, collection, .wrote otp row⟩ :: history) = minted history := rfl

@[simp] theorem accepted_minted :
    accepted (⟨flow, collection, .minted otp⟩ :: history) = accepted history := rfl

@[simp] theorem accepted_consumed {time : Int} :
    accepted (⟨flow, collection, .consumed otp time⟩ :: history) =
      (flow, otp) :: accepted history := rfl

@[simp] theorem accepted_wrote {row : Row} :
    accepted (⟨flow, collection, .wrote otp row⟩ :: history) = accepted history := rfl

theorem ServePurpose.minted (h : ServePurpose env schema history) :
    ServePurpose env schema (⟨flow, collection, .minted otp⟩ :: history) where
  ownFlow := h.ownFlow.trans (sublist_cons_self _ _).subperm
  lifetime := forall_mem_cons.mpr ⟨fun _ _ hentry => (nomatch hentry), h.lifetime⟩
  reaches := forall_mem_cons.mpr ⟨fun _ _ _ hentry => (nomatch hentry), h.reaches⟩

theorem ServePurpose.consumed {time : Int} (h : ServePurpose env schema history)
    (hown : ((flow, otp) :: accepted history).Subperm (Emails.minted history))
    (htime : time - tokenTtl ≤ otp.createdAt) :
    ServePurpose env schema (⟨flow, collection, .consumed otp time⟩ :: history) where
  ownFlow := hown
  lifetime := forall_mem_cons.mpr ⟨fun _ _ hentry => by cases hentry; exact htime, h.lifetime⟩
  reaches := forall_mem_cons.mpr ⟨fun _ _ _ hentry => (nomatch hentry), h.reaches⟩

theorem ServePurpose.wrote {row : Row} (h : ServePurpose env schema history)
    (hreaches : flow ≠ .emailChange → ∃ target, schema.get collection = some target ∧
      Reaches env target otp row) :
    ServePurpose env schema (⟨flow, collection, .wrote otp row⟩ :: history) where
  ownFlow := h.ownFlow
  lifetime := forall_mem_cons.mpr ⟨fun _ _ hentry => (nomatch hentry), h.lifetime⟩
  reaches := forall_mem_cons.mpr
    ⟨fun hflow _ _ hentry => by cases hentry; exact hreaches hflow, h.reaches⟩

end Histories

/-! ### Runs -/

/-- The tokens that were accepted and those that are stored were minted, each as often. -/
def Accounted (world : World) : Prop :=
  ∀ otp, ((accepted world.history).map Prod.snd).count otp + world.db.otps.rows.count otp ≤
    ((minted world.history).map Prod.snd).count otp

/-- A token that was minted by one flow only. -/
theorem count_minted_eq {history : List Event} {flow : Flow} {otp : Otp}
    (h : ∀ other, (other, otp) ∈ minted history → other = flow) :
    ((minted history).map Prod.snd).count otp = (minted history).count (flow, otp) := by
  rw [List.count, List.count, countP_map]
  refine countP_congr fun p hp => ?_
  obtain ⟨other, x⟩ := p
  simp only [Function.comp_apply, beq_iff_eq, Prod.mk.injEq]
  constructor
  · rintro rfl
    exact ⟨h other hp, rfl⟩
  · exact And.right

theorem count_filter_ne (rows : List Otp) (otp other : Otp) :
    (rows.filter fun x => !decide (x = otp)).count other ≤
      if other = otp then 0 else rows.count other := by
  split
  · rename_i heq
    rw [heq, Nat.le_zero, count_eq_zero]
    simp
  · exact filter_sublist.count_le other

/-- What every step of a run keeps, as long as no token is misused. -/
structure Inv (env : Env) (schema : Schema) (world : World) : Prop where
  accounted : Accounted world
  serves : ServePurpose env schema world.history

variable {world : World}

/-- A request half. -/
theorem Inv.of_mints {flow : Flow} {after : Db} (h : Inv env schema world)
    (hmints : Mints world.db.forget after) :
    Inv env schema ⟨after, after.journal.map (⟨flow, collection, ·⟩) ++ world.history⟩ := by
  rcases hmints with ⟨hrows, hjournal⟩ | ⟨otp, hrows, hjournal⟩
  · rw [Db.forget_otps] at hrows
    rw [hjournal]
    refine ⟨fun otp => ?_, h.serves⟩
    exact (Nat.add_le_add_left (hrows.count_le otp) _).trans (h.accounted otp)
  · rw [Db.forget_otps] at hrows
    rw [hjournal]
    refine ⟨fun other => ?_, h.serves.minted⟩
    have hcount := hrows.count_le other
    have hbefore := h.accounted other
    simp only [Db.forget_journal, map_cons, map_nil, cons_append, nil_append,
      accepted_minted, minted_minted, count_cons] at hcount ⊢
    omega

/-- One flow minted the token, and it is stored: it can be accepted once more. -/
theorem Inv.own_subperm {flow : Flow} {otp : Otp} (h : Inv env schema world)
    (hmem : otp ∈ world.db.otps.rows)
    (hown : ∀ other, (other, otp) ∈ minted world.history → other = flow) :
    ((flow, otp) :: accepted world.history).Subperm (minted world.history) := by
  rw [subperm_ext_iff]
  intro p _
  rw [count_cons]
  split
  · rename_i heq
    obtain rfl : (flow, otp) = p := by simpa using heq
    have hstored : 0 < world.db.otps.rows.count otp := count_pos_iff.mpr hmem
    have haccepted : (accepted world.history).count (flow, otp) ≤
        ((accepted world.history).map Prod.snd).count otp := count_le_count_map (f := Prod.snd)
    have haccounted := h.accounted otp
    rw [count_minted_eq hown] at haccounted
    omega
  · exact h.serves.ownFlow.count_le p

/-- The token that is consumed is in no row any more. -/
theorem Inv.spent_accounted {flow : Flow} {otp : Otp} (h : Inv env schema world)
    (hmem : otp ∈ world.db.otps.rows) (other : Otp) :
    ((((flow, otp) :: accepted world.history).map Prod.snd).count other) +
        (world.db.otps.rows.filter fun x => !decide (x = otp)).count other ≤
      ((minted world.history).map Prod.snd).count other := by
  have hbefore := h.accounted other
  have hfilter := count_filter_ne world.db.otps.rows otp other
  rw [map_cons, count_cons]
  by_cases heq : other = otp
  · subst heq
    have hstored : 0 < world.db.otps.rows.count other := count_pos_iff.mpr hmem
    simp only [↓reduceIte, beq_self_eq_true] at hfilter ⊢
    omega
  · simp only [heq, ↓reduceIte, beq_iff_eq, Ne.symm heq] at hfilter ⊢
    omega

theorem presents_forget {request : Confirm} {resolved : Resolved} {otp : Otp}
    (h : request.Presents env schema answers collection db.forget resolved otp) :
    request.Presents env schema answers collection db resolved otp := by
  cases request with
  | verification body => exact h
  | passwordReset body hasher => exact h
  | emailChange principal body =>
    obtain ⟨haddress, request, userId, hbody, hmember, howns, hspends⟩ := h
    exact ⟨haddress, request, userId, hbody, hmember, ⟨howns.looksUp, howns.knows⟩, hspends⟩

/-- A confirm half that does not misuse a token. -/
theorem Inv.of_redeems {request : Confirm} {after : Db} (h : Inv env schema world)
    (hredeems : Redeems env schema answers collection request world.db.forget after)
    (hgood : ¬ Misused env schema world (.call (.confirm request) answers collection)) :
    Inv env schema ⟨after, after.journal.map (⟨request.flow, collection, ·⟩) ++ world.history⟩ := by
  rcases hredeems with ⟨hotps, hjournal⟩ | ⟨resolved, otp, now, hpresents, hmem, htime, hotps, hentries⟩
  · rw [hjournal]
    refine ⟨fun otp => ?_, h.serves⟩
    simp only [hotps]
    exact h.accounted otp
  have hpresents := presents_forget hpresents
  have hown : ∀ other, (other, otp) ∈ minted world.history → other = request.flow := by
    intro other hminted
    by_contra hne
    exact hgood ⟨resolved, otp, hpresents, .inl ⟨other, hne, hminted⟩⟩
  have hserves : ServePurpose env schema
      (⟨request.flow, collection, .consumed otp now⟩ :: world.history) :=
    h.serves.consumed (h.own_subperm hmem hown) htime
  have haccounted : ∀ other, (((request.flow, otp) :: accepted world.history).map Prod.snd).count
      other + after.otps.rows.count other ≤ ((minted world.history).map Prod.snd).count other := by
    intro other
    rw [hotps]
    exact h.spent_accounted hmem other
  rcases hentries with hjournal | ⟨row, hjournal, hwrites⟩
  · rw [hjournal]
    exact ⟨haccounted, hserves⟩
  · rw [hjournal]
    refine ⟨haccounted, hserves.wrote fun hflow => ?_⟩
    have haddress : Addresses schema answers collection resolved := by
      cases request <;> exact hpresents.1
    refine ⟨resolved.collection, (Schema.resolve_eq_ok.mp haddress.resolves).1, ?_⟩
    by_contra hnot
    exact hgood ⟨resolved, otp, hpresents, .inr ⟨row, hwrites hflow, hnot⟩⟩

/-- One step. -/
theorem Inv.step {action : Action} (h : Inv env schema world)
    (hgood : ¬ Misused env schema world action) :
    Inv env schema (Emails.step env schema world action) := by
  cases action with
  | records accounts => exact ⟨h.accounted, h.serves⟩
  | call call answers collection =>
    cases call with
    | requestVerification fresh body => exact h.of_mints (mints_requestEmail fresh body)
    | requestPasswordReset fresh body => exact h.of_mints (mints_requestEmail fresh body)
    | requestEmailChange fresh principal body =>
      exact h.of_mints (mints_requestEmailChange fresh principal body)
    | confirm request => exact h.of_redeems (redeems_run request) hgood

/-- No token was asked for yet. -/
structure World.Initial (world : World) : Prop where
  noOtps : world.db.otps.rows = []
  noHistory : world.history = []

theorem Inv.of_initial (h : world.Initial) : Inv env schema world := by
  obtain ⟨hotps, hhistory⟩ := h
  refine ⟨fun otp => ?_, ?_⟩
  · simp [hotps, hhistory, accepted, minted]
  · rw [hhistory]
    exact ⟨.refl _, fun _ hevent => (nomatch hevent), fun _ hevent => (nomatch hevent)⟩

/-- The steps of a run. -/
def Steps (env : Env) (schema : Schema) (world : World) (action : Action) (after : World) : Prop :=
  after = Emails.step env schema world action

/-- **A token does only what it was minted for**, in every run in which none is presented to another
flow than its own, and none that was mailed to an address is redeemed for an account that does not
have the address. -/
theorem tokens_serve_their_purpose {after : World} {actions : List Action}
    (hinitial : world.Initial)
    (hrun : Run (When (fun world action => ¬ Misused env schema world action) (Steps env schema))
      world actions after) : ServePurpose env schema after.history := by
  refine (hrun.invariant (I := Inv env schema) ?_ (.of_initial hinitial)).serves
  rintro world action after h ⟨hgood, rfl⟩
  exact h.step hgood

section Examples

/-- One account, and no token. -/
def start : World := ⟨{ oneAccount "users" with otps := ⟨[], nodup_nil⟩ }, []⟩

def fresh : Fresh := ⟨"a1b2c3d4e5f6g7h", .ok "dG9rZW4"⟩

/-- The account asks to be verified. -/
def askVerification : Action :=
  .call (.requestVerification fresh (.ok "ada@example.com")) promptly "users"

/-- The token is presented to the verification. -/
def verify : Action := .call (.confirm (.verification (.ok "dG9rZW4"))) promptly "users"

/-- The token of a verification is presented to it. -/
theorem verify_not_misused :
    ¬ Misused oneToken usersOnly (step oneToken usersOnly start askVerification) verify := by
  have hminted : minted (step oneToken usersOnly start askVerification).history =
      [(.verification, tokenOf "users")] := by decide
  have hstored : ∀ now : Int, now = 0 →
      (step oneToken usersOnly start askVerification).db.otps.find "users"
        (oneToken.hashToken "dG9rZW4") now = some (tokenOf "users") := by
    rintro now rfl
    decide
  have hemail : ((step oneToken usersOnly start askVerification).db.accounts "users").bind
      (fun accounts => (accounts.find "ada456789012345").bind fun row => row.text "email") =
        some "ada@example.com" := by decide
  have hget : usersOnly.get "users" = some users := by decide
  rintro ⟨resolved, otp, ⟨haddress, token, htoken, now, hnow, hfind⟩, hmisused⟩
  obtain rfl : "dG9rZW4" = token := Except.ok.inj htoken
  rw [hstored now (Except.ok.inj hnow).symm, Option.some.injEq] at hfind
  subst hfind
  rcases hmisused with ⟨flow, hflow, hmem⟩ | ⟨row, ⟨-, accounts, haccounts, hrow⟩, hreaches⟩
  · rw [hminted, mem_singleton, Prod.mk.injEq] at hmem
    exact hflow hmem.1
  · have hcollection : resolved.collection = users :=
      Option.some.inj ((Schema.resolve_eq_ok.mp haddress.resolves).1.symm.trans hget)
    have hada : accounts.find "ada456789012345" = some row := hrow
    rw [haccounts, Option.bind_some, hada, Option.bind_some] at hemail
    exact hreaches ⟨"ada@example.com", "ada@example.com", rfl, by rw [hcollection]; exact hemail, rfl⟩

/-- The account is verified, by its own token. -/
theorem verification_serves :
    accepted (step oneToken usersOnly (step oneToken usersOnly start askVerification)
      verify).history = [(.verification, tokenOf "users")] ∧
    ServePurpose oneToken usersOnly
      (step oneToken usersOnly (step oneToken usersOnly start askVerification) verify).history :=
  ⟨by decide, tokens_serve_their_purpose ⟨rfl, rfl⟩
    (.cons ⟨show ¬ Misused oneToken usersOnly start askVerification from fun h => h, rfl⟩
      (.cons ⟨verify_not_misused, rfl⟩ (.nil _)))⟩

/-- The signed-in account. -/
def ada : Principal where
  claims := some ⟨false, "ada456789012345", "ada@example.com", users.id, "users"⟩
  recordClaims := []
  recordClaims_of_none := fun _ => rfl

/-- The account asks to move to another address. -/
def askChange : Action :=
  .call (.requestEmailChange fresh ada (.ok "eve@example.com")) promptly "users"

/-- **The token of an address change verifies the account.** It was mailed to an address that the
account does not have. -/
theorem change_token_verifies :
    ¬ ∀ (env : Env) (schema : Schema) (world after : World) (actions : List Action),
      world.Initial → Run (Steps env schema) world actions after →
        ServePurpose env schema after.history := by
  intro hall
  have hserves := hall oneToken usersOnly start _ [askChange, verify] ⟨rfl, rfl⟩
    (.cons rfl (.cons rfl (.nil _)))
  have haccepted : accepted (step oneToken usersOnly (step oneToken usersOnly start askChange)
      verify).history = [(.verification, { tokenOf "users" with sentTo := some "eve@example.com" })] :=
    by decide
  have hminted : minted (step oneToken usersOnly (step oneToken usersOnly start askChange)
      verify).history = [(.emailChange, { tokenOf "users" with sentTo := some "eve@example.com" })] :=
    by decide
  have hown := hserves.ownFlow
  rw [haccepted, hminted] at hown
  exact absurd (hown.subset (mem_singleton_self _)) (by decide)

end Examples

end LazyPock.Emails

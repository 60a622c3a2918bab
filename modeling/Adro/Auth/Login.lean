import Adro.Go.Map
import Adro.Go.Text

/-!
# Logins and their limit

`Service.Authenticate` of `internal/auth`. Wrong passwords are counted in a window
of ten minutes that starts with the first of them; from the fifth on each one locks
the login for five minutes. The window does not slide and the lock is shorter than
the window, so ten passwords can be tried within ten minutes, and no more.
-/

namespace Adro.Auth

open Adro.Go

structure User where
  id : String
  workspaceID : String
  username : String
  displayName : String
  role : String
  menuIDs : List String
  status : String
  createdAt : Time
  updatedAt : Time
  passwordPHC : String

structure Session where
  user : User
  token : String
  expiresAt : Time

structure SessionRecord where
  userID : String
  expiresAt : Time

/-- `failures`, with zeros where nothing is recorded. -/
structure Failures where
  count : Nat := 0
  windowStart : Time := 0
  lockedUntil : Time := 0

structure Service where
  users : GoMap User := ∅
  sessions : GoMap SessionRecord := ∅
  failures : GoMap Failures := ∅

/-- The case mapping, the digest of a token and the check of a password. -/
structure Platform where
  lower : Char → Char
  hashToken : String → String
  verifyPassword : String → String → Bool

inductive Sentinel
  | invalidCredentials
  | locked
  deriving DecidableEq, Repr

abbrev Error := GoError Sentinel

def errInvalidCredentials : Error := ⟨some .invalidCredentials, "invalid credentials"⟩

def errLocked : Error := ⟨some .locked, "login temporarily locked"⟩

def sessionLifetime : Duration := 720 * minute

def publicUser (user : User) : User := { user with passwordPHC := "" }

/-- The record after one more wrong password. -/
def Failures.failed (f : Failures) (now : Time) : Failures :=
  let f := if f.windowStart == 0 || Time.sub now f.windowStart > 10 * minute then
      { windowStart := now } else f
  let f := { f with count := f.count + 1 }
  if f.count ≥ 5 then { f with lockedUntil := now + 5 * minute } else f

namespace Service

variable (P : Platform) (s : Service)

def normalizeUsername (value : String) : String := toLower P.lower (trimSpace value)

def userByUsername (username : String) : Option User :=
  (s.users.find fun _ user => user.username == username).map Prod.snd

def recorded (username : String) : Failures := (s.failures[username]?).getD {}

def authenticate (username password : String) (now : Time) (token : String) :
    Except Error Session × Service :=
  let username := normalizeUsername P username
  let f := s.recorded username
  if now < f.lockedUntil then (.error errLocked, s)
  else
    let failed := (.error errInvalidCredentials,
      { s with failures := s.failures.insert username (f.failed now) })
    match s.userByUsername username with
    | none => failed
    | some user =>
      if user.status != "active" || !P.verifyPassword user.passwordPHC password then failed
      else
        let expires := now + sessionLifetime
        (.ok ⟨publicUser user, token, expires⟩,
          { s with
            failures := s.failures.erase username
            sessions := s.sessions.insert (P.hashToken token) ⟨user.id, expires⟩ })

end Service

structure Login where
  password : String
  now : Time
  token : String := ""

/-- The times and the answers of logins under one name. -/
def answers (P : Platform) (username : String) : Service → List Login →
    List (Time × Except Error Session)
  | _, [] => []
  | s, c :: rest =>
    let reply := s.authenticate P username c.password c.now c.token
    (c.now, reply.1) :: answers P username reply.2 rest

/-- An answer within ten minutes from `start` for which the password was looked at. -/
def tried (start : Time) (a : Time × Except Error Session) : Bool :=
  start ≤ a.1 && a.1 ≤ start + 10 * minute &&
    match a.2 with
    | .error e => e != errLocked
    | .ok _ => true

section

variable {P : Platform} {s : Service} {username : String} {last start : Time} {f : Failures}
  {k : Nat}

theorem recorded_insert :
    Service.recorded { s with failures := s.failures.insert username f } username =
    f := by
  simp [Service.recorded]

theorem authenticate_failed
    (h : (s.authenticate P username password now token).1.toOption.isNone = true) :
    let name := Service.normalizeUsername P username
    (now < (s.recorded name).lockedUntil ∧
      s.authenticate P username password now token = (.error errLocked, s)) ∨
    (s.recorded name).lockedUntil ≤ now ∧
      s.authenticate P username password now token = (.error errInvalidCredentials,
        { s with failures := s.failures.insert name ((s.recorded name).failed now) }) := by
  unfold Service.authenticate at *
  dsimp only at *
  split
  · rename_i hlocked
    exact .inl ⟨hlocked, rfl⟩
  · rename_i hlocked
    rw [if_neg hlocked] at h
    refine .inr ⟨Int.not_lt.mp hlocked, ?_⟩
    split
    · rfl
    · split
      · rfl
      · rename_i user huser hactive
        simp only [huser, if_neg hactive] at h
        cases h

/-- A record that the last wrong password, if there was one, left by the time `last`. -/
structure Failures.Since (f : Failures) (last : Time) : Prop where
  started : f.windowStart = 0 ↔ f.count = 0
  bound : f.windowStart ≤ last

/-- What the record says when `k` passwords were tried since `start`: none; or some of
a window that is older than `start`; or `base` of them before the window that is open. -/
def Spent (start : Time) (k : Nat) (f : Failures) : Prop :=
  k = 0 ∧ (f.count = 0 ∨ f.windowStart < start) ∨
  f.windowStart < start ∧ (f.count ≤ 4 ∧ k + 1 ≤ f.count ∨
    5 ≤ f.count ∧ (k ≤ 4 ∧ start + 5 * minute ≤ f.lockedUntil ∨
      k ≤ 5 ∧ start + 10 * minute ≤ f.lockedUntil)) ∨
  start ≤ f.windowStart ∧ 1 ≤ f.count ∧ ∃ base, k = base + f.count ∧
    (base ≤ 3 ∨ base ≤ 4 ∧ start + 5 * minute ≤ f.windowStart ∨
      base ≤ 5 ∧ start + 10 * minute ≤ f.windowStart) ∧
    (5 ≤ f.count → f.windowStart + 5 * minute * (f.count - 4) ≤ f.lockedUntil)

theorem Failures.failed_cases (f : Failures) (now : Time) :
    ((f.windowStart = 0 ∨ f.windowStart + 10 * minute < now) ∧ f.failed now = ⟨1, now, 0⟩) ∨
    f.windowStart ≠ 0 ∧ now ≤ f.windowStart + 10 * minute ∧
      f.failed now = ⟨f.count + 1, f.windowStart,
        if 4 ≤ f.count then now + 5 * minute else f.lockedUntil⟩ := by
  have hsub : Time.sub now f.windowStart > 10 * minute ↔ f.windowStart + 10 * minute < now := by
    unfold Time.sub maxInt64 minute Time Duration
    omega
  unfold Failures.failed
  simp only [hsub, Bool.or_eq_true, beq_iff_eq, decide_eq_true_eq]
  by_cases hnew : f.windowStart = 0 ∨ f.windowStart + 10 * minute < now
  · rw [if_pos hnew]
    exact .inl ⟨hnew, rfl⟩
  · rw [if_neg hnew]
    obtain ⟨hzero, hopen⟩ := not_or.mp hnew
    refine .inr ⟨hzero, Int.not_lt.mp hopen, ?_⟩
    by_cases hfour : 4 ≤ f.count
    · simp [hfour]
    · simp [hfour]

theorem Failures.Since.failed (h : f.Since last) (hlast : last ≤ now) (hnow : 0 < now) :
    (f.failed now).Since now := by
  obtain ⟨hstarted, hbound⟩ := h
  rcases f.failed_cases now with ⟨-, h⟩ | ⟨hzero, -, h⟩ <;> rw [h]
  · exact ⟨by simp [hnow.ne'], le_rfl⟩
  · exact ⟨by simp [hzero], hbound.trans hlast⟩

/-- One more password within the ten minutes. -/
theorem Spent.failed (h : Spent start k f) (hsince : f.Since last) (hlast : last ≤ now)
    (hopen : f.lockedUntil ≤ now) (hstart : start ≤ now) (hend : now ≤ start + 10 * minute) :
    Spent start (k + 1) (f.failed now) ∧ k + 1 ≤ 10 := by
  obtain ⟨hstarted, hbound⟩ := hsince
  rcases f.failed_cases now with ⟨hnew, hf⟩ | ⟨hzero, hwindow, hf⟩ <;> rw [hf]
  · rcases h with ⟨rfl, -⟩ | ⟨hold, hk⟩ | ⟨hw, hcount, base, rfl, hbase, hlock⟩
    · exact ⟨.inr (.inr ⟨hstart, le_rfl, 0, by simp⟩), by simp⟩
    · have hbase : k ≤ 3 ∨ k ≤ 4 ∧ start + 5 * minute ≤ now ∨
          k ≤ 5 ∧ start + 10 * minute ≤ now := by
        unfold Time Duration at *
        omega
      exact ⟨.inr (.inr ⟨hstart, le_rfl, k, rfl, hbase, by simp⟩), by omega⟩
    · unfold Time Duration minute at *
      omega
  · rcases h with ⟨rfl, hold⟩ | ⟨hold, hk⟩ | ⟨hw, hcount, base, rfl, hbase, hlock⟩
    · refine ⟨.inr (.inl ?_), by simp⟩
      split <;> (unfold Time Duration minute at *; simp only; omega)
    · refine ⟨.inr (.inl ?_), by omega⟩
      split <;> (unfold Time Duration minute at *; simp only; omega)
    · refine ⟨.inr (.inr ⟨hw, by simp, base, by simp [add_assoc], hbase, ?_⟩), ?_⟩
      · intro hfive
        split <;> (unfold Time Duration minute at *; push_cast; simp only at *; omega)
      · unfold Time Duration minute at *
        omega

/-- A password that is tried before the ten minutes begin. -/
theorem Spent.failed_before (h : Spent start 0 f) (hsince : f.Since last) (hnow : now < start) :
    Spent start 0 (f.failed now) := by
  have hstarted := hsince.started
  rcases f.failed_cases now with ⟨-, hf⟩ | ⟨hzero, -, hf⟩ <;> rw [hf]
  · exact .inl ⟨rfl, .inr hnow⟩
  · rcases h with ⟨-, hcount | hold⟩ | ⟨hold, -⟩ | ⟨-, hcount, base, hbase, -⟩
    · exact absurd (hstarted.mpr hcount) hzero
    · exact .inl ⟨rfl, .inr hold⟩
    · exact .inl ⟨rfl, .inr hold⟩
    · omega

theorem tried_le {name : String} (hname : Service.normalizeUsername P username = name)
    (hsince : (s.recorded name).Since last)
    (hspent : last ≤ start + 10 * minute → Spent start k (s.recorded name))
    (hearly : last < start → k = 0) (hk : k ≤ 10)
    (hclock : (calls.map Login.now).Pairwise (· ≤ ·))
    (hlast : ∀ c ∈ calls, last ≤ c.now ∧ 0 < c.now)
    (hfailed : ∀ a ∈ answers P username s calls, a.2.toOption.isNone = true) :
    k + ((answers P username s calls).filter (tried start)).length ≤ 10 := by
  induction calls generalizing s k last with
  | nil => exact hk
  | cons c calls ih =>
    obtain ⟨hlater, hclock⟩ := List.pairwise_cons.mp hclock
    obtain ⟨hc, hrest⟩ := List.forall_mem_cons.mp hlast
    simp only [answers]
    obtain ⟨hanswer, hfailed⟩ := List.forall_mem_cons.mp hfailed
    have hnext : ∀ c' ∈ calls, c.now ≤ c'.now ∧ 0 < c'.now := fun c' hc' =>
      ⟨hlater _ (List.mem_map_of_mem hc'), (hrest c' hc').2⟩
    rcases authenticate_failed hanswer with ⟨-, heq⟩ | ⟨hopen, heq⟩ <;> rw [heq] at hfailed ⊢
    · rw [List.filter_cons_of_neg (by simp [tried])]
      exact ih hsince hspent hearly hk hclock hrest hfailed
    · have hrecorded := @recorded_insert s name ((s.recorded name).failed c.now)
      have hsince' := hsince.failed hc.1 hc.2
      rw [hname] at hopen hfailed ⊢
      rw [← hrecorded] at hsince'
      by_cases hstart : c.now < start
      · obtain rfl := hearly (lt_of_le_of_lt hc.1 hstart)
        have hten : start ≤ start + 10 * minute := by
          unfold minute Time Duration
          omega
        have hspent' := (hspent ((hc.1.trans hstart.le).trans hten)).failed_before hsince hstart
        rw [← hrecorded] at hspent'
        rw [List.filter_cons_of_neg (by simp [tried, hstart])]
        exact ih hsince' (fun _ => hspent') (fun _ => rfl) hk hclock hnext hfailed
      · by_cases hend : c.now ≤ start + 10 * minute
        · obtain ⟨hspent', hk'⟩ := (hspent (hc.1.trans hend)).failed hsince hc.1 hopen
            (Int.not_lt.mp hstart) hend
          rw [← hrecorded] at hspent'
          rw [List.filter_cons_of_pos (by simp [tried, hend, Int.not_lt.mp hstart]; decide),
            List.length_cons, Nat.add_comm _ 1, ← Nat.add_assoc]
          exact ih hsince' (fun _ => hspent') (fun h => absurd h hstart) hk' hclock hnext hfailed
        · rw [List.filter_cons_of_neg (by simp [tried, hend])]
          exact ih hsince' (fun h => absurd h hend)
            (fun h => absurd h hstart) hk hclock hnext hfailed

/-- In every ten minutes the password of at most ten logins is looked at; every other
login is answered with `ErrLocked`. -/
theorem guesses_bounded (P : Platform) (s : Service) (username : String) (calls : List Login)
    (hnew : s.failures[Service.normalizeUsername P username]? = none)
    (hclock : (calls.map Login.now).Pairwise (· ≤ ·)) (hpositive : ∀ c ∈ calls, 0 < c.now)
    (hfailed : ∀ a ∈ answers P username s calls, a.2.toOption.isNone = true) (start : Time) :
    ((answers P username s calls).filter (tried start)).length ≤ 10 := by
  have hrecorded : s.recorded (Service.normalizeUsername P username) = {} := by
    rw [Service.recorded, hnew, Option.getD_none]
  have hzero := @tried_le P s username 0 start 0 calls _ rfl (hrecorded ▸ ⟨by simp, le_rfl⟩)
    (fun _ => hrecorded ▸ .inl ⟨rfl, .inl rfl⟩) (fun _ => rfl) (Nat.zero_le _) hclock
    (fun c hc => ⟨(hpositive c hc).le, hpositive c hc⟩) hfailed
  rwa [Nat.zero_add] at hzero

end

def samplePlatform : Platform where
  lower := Char.toLower
  hashToken := id
  verifyPassword := fun phc password => phc == password

def sampleService : Service where
  users := (∅ : GoMap User).insert "u" ⟨"u", "local", "admin", "Admin", "admin", [], "active",
    0, 0, "secret"⟩

/-- One wrong password, ten minutes later four, and then one whenever the lock ends. -/
def guesses : List Login :=
  [1, 11, 11, 11, 11, 16, 16, 16, 16, 16, 21].map fun n => ⟨"wrong", n * minute, ""⟩

theorem guesses_bounded_sample :
    ((answers samplePlatform " Admin" sampleService guesses).filter
      (tried (11 * minute))).length ≤ 10 :=
  guesses_bounded samplePlatform sampleService " Admin" guesses (by decide +kernel)
    (by decide +kernel)
    (by decide +kernel) (by decide +kernel) (11 * minute)

/-- Ten wrong passwords of an active account are checked within ten minutes. -/
theorem ten_wrong_passwords :
    (sampleService.userByUsername "admin").map (·.status) = some "active" ∧
      ((answers samplePlatform "admin" sampleService guesses).filter fun a =>
        11 * minute ≤ a.1 && a.1 ≤ 21 * minute &&
          match a.2 with
          | .error e => e == errInvalidCredentials
          | .ok _ => false).length = 10 := by
  decide +kernel

end Adro.Auth

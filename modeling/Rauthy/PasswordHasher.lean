/-
Rauthy/PasswordHasher.lean

The service that hashes and compares passwords (`rauthy-common/src/password_hasher.rs`).  A hash
takes much memory, so all of them go through one channel, which `MAX_HASH_THREADS` bounds, to one
task; that waits for each hash before it takes the next message.  Every message carries the channel
for its answer.

Main result: `hasher_serves`.  In every interleaving of the callers, at most one password is hashed
at a time, the messages that wait fit into the channel, and every caller gets the answer to its own
message.
-/
import Rauthy.Data
import Rauthy.Lib.Mailbox
import Rauthy.Lib.Text

namespace Rauthy

/-- What the library `argon2` computes. -/
structure Argon2 where
  /-- the hash of a password with a salt, or an error -/
  hashPassword : Bytes → String → Option String
  /-- a hash that can be parsed -/
  parse : String → Bool
  /-- whether a password is the one of a hash -/
  verifyPassword : Bytes → String → Bool

/-- Hashes are parsed and verified with the password that they were made of. -/
structure Argon2.Correct (argon2 : Argon2) : Prop where
  parse : ∀ plain salt hash, argon2.hashPassword plain salt = some hash → argon2.parse hash = true
  verify : ∀ plain salt hash, argon2.hashPassword plain salt = some hash →
    argon2.verifyPassword plain hash = true

inductive PasswordHashMessage where
  | hash (plainText : String)
  | compare (plainText hash : String)
  deriving DecidableEq

/-- What a caller receives.  A hash that fails panics in its own thread, and takes the channel for
the answer with it. -/
inductive PasswordHashReply where
  | hash (hash : String)
  | isMatch (isMatch : Bool)
  | disconnected
  deriving DecidableEq

/-- `hash_password` -/
def Argon2.runHash (argon2 : Argon2) (salt plainText : String) : PasswordHashReply :=
  match argon2.hashPassword (Text.asBytes plainText) salt with
  | some hash => .hash hash
  | none => .disconnected

/-- `compare_passwords` -/
def Argon2.runCompare (argon2 : Argon2) (plainText hash : String) : PasswordHashReply :=
  if argon2.parse hash then
    .isMatch (argon2.verifyPassword (Text.asBytes plainText) hash)
  else .isMatch false

/-- One round of `run`; the salt is drawn for a new hash. -/
def Argon2.reply (argon2 : Argon2) (salt : String) : PasswordHashMessage → PasswordHashReply
  | .hash plainText => argon2.runHash salt plainText
  | .compare plainText hash => argon2.runCompare plainText hash

/-- The task of `run` behind `HASH_CHANNELS`; it is spawned once. -/
def hashService (argon2 : Argon2) (maxHashThreads : ℕ) :
    Mailbox.Service ℕ PasswordHashMessage PasswordHashReply Unit where
  room := some maxHashThreads
  admits _ := True
  env _ _ := False
  serve _ _ m r _ out := (∃ salt, r = argon2.reply salt m) ∧ out = []

abbrev HashMailbox := Mailbox ℕ PasswordHashMessage PasswordHashReply Unit

abbrev HashRun (argon2 : Argon2) (maxHashThreads : ℕ) : HashMailbox → HashMailbox → Prop :=
  Mailbox.Run (hashService argon2 maxHashThreads)

section Runs

variable {argon2 : Argon2} {n : ℕ} {P : HashMailbox}
  {i : ℕ} {plain : String} {r : PasswordHashReply}

theorem replies_of_run (h : HashRun argon2 n (.init ()) P) :
    ∀ a ∈ P.answered, ∃ salt, a.2 = argon2.reply salt a.1.2 := by
  refine Mailbox.Run.inv (T := hashService argon2 n)
    (I := fun _ l => ∀ a ∈ l, ∃ salt, a.2 = argon2.reply salt a.1.2)
    (fun a ha => by cases ha) (fun _ _ _ hI _ => hI) ?_ h
  rintro s l i m r s' out hI - ⟨hr, -⟩ a ha
  rcases List.mem_append.mp ha with ha | ha
  · exact hI a ha
  · obtain rfl := List.mem_singleton.mp ha
    exact hr

/-- A password is answered with its hash for some salt, or not at all if it cannot be hashed. -/
theorem hashed_of_run (h : HashRun argon2 n (.init ()) P) (ha : ((i, .hash plain), r) ∈ P.answered) :
    ∃ salt, (argon2.hashPassword (Text.asBytes plain) salt = none ∧ r = .disconnected) ∨
      ∃ hash, argon2.hashPassword (Text.asBytes plain) salt = some hash ∧ r = .hash hash := by
  obtain ⟨salt, hr⟩ := replies_of_run h _ ha
  have hr : r = argon2.runHash salt plain := hr
  apply Exists.intro salt
  unfold Argon2.runHash at hr
  split at hr
  · next hash heq => exact .inr ⟨hash, heq, hr⟩
  · next heq => exact .inl ⟨heq, hr⟩

/-- A comparison is answered with the verification, and with `false` if the hash cannot be
parsed. -/
theorem compared_of_run (h : HashRun argon2 n (.init ()) P) {hash : String}
    (ha : ((i, .compare plain hash), r) ∈ P.answered) :
    r = .isMatch (argon2.parse hash && argon2.verifyPassword (Text.asBytes plain) hash) := by
  obtain ⟨salt, hr⟩ := replies_of_run h _ ha
  have hr : r = argon2.runCompare plain hash := hr
  rw [hr, Argon2.runCompare]
  cases argon2.parse hash <;> rfl

/-- A hash that was answered is matched by its password, and by it in every later comparison. -/
theorem matched_of_run (hc : argon2.Correct) (h : HashRun argon2 n (.init ()) P) {j : ℕ}
    {hash : String} (ha : ((i, .hash plain), .hash hash) ∈ P.answered)
    (hb : ((j, .compare plain hash), r) ∈ P.answered) : r = .isMatch true := by
  obtain ⟨salt, ⟨-, hr⟩ | ⟨hash', hhash, hr⟩⟩ := hashed_of_run h ha
  · cases hr
  · cases hr
    rw [compared_of_run h hb, hc.parse _ _ _ hhash, hc.verify _ _ _ hhash]
    rfl

/-- From every state the task can answer everything that was sent. -/
theorem answers_of_run (h : HashRun argon2 n (.init ()) P) :
    ∃ P', HashRun argon2 n P P' ∧ P'.sent = P'.answered.map Prod.fst ∧ P.sent <+: P'.sent := by
  obtain ⟨P', hrun, hcur, hq, -⟩ := Mailbox.Run.drains (T := hashService argon2 n) (P := P)
    (fun _ => True) [] (fun _ => 1)
    (fun _ _ m _ _ => ⟨argon2.reply "" m, (), [], ⟨⟨"", rfl⟩, rfl⟩, trivial, Nat.one_pos⟩)
    trivial h.accounted fun _ _ => List.not_mem_nil
  exact ⟨P', hrun, Mailbox.Run.all_answered (h.trans hrun) hcur hq, hrun.grows.1⟩

/-- **The password hasher**, in every interleaving of its callers: no message is lost or served
twice, they are served in order, and all of them can be; the messages that wait fit into the
channel, if it has any room; a password is answered with a hash of it, a comparison with whether the
password is that of the hash, and a password that is compared with a hash that was made of it
matches. -/
theorem hasher_serves (hc : argon2.Correct) (hn : 0 < n)
    (h : HashRun argon2 n (.init ()) P) :
    P.sent = P.answered.map Prod.fst ++ (P.current.toList ++ P.queue) ∧
      (P.answered.map fun a => a.1.1).Nodup ∧ P.queue.length ≤ n ∧
      (∃ P', HashRun argon2 n P P' ∧ P'.sent = P'.answered.map Prod.fst ∧ P.sent <+: P'.sent) ∧
      (∀ i plain r, ((i, .hash plain), r) ∈ P.answered → ∃ salt,
        (argon2.hashPassword (Text.asBytes plain) salt = none ∧ r = .disconnected) ∨
          ∃ hash, argon2.hashPassword (Text.asBytes plain) salt = some hash ∧ r = .hash hash) ∧
      (∀ i plain hash r, ((i, .compare plain hash), r) ∈ P.answered →
        r = .isMatch (argon2.parse hash && argon2.verifyPassword (Text.asBytes plain) hash)) ∧
      ∀ i j plain hash r, ((i, .hash plain), .hash hash) ∈ P.answered →
        ((j, .compare plain hash), r) ∈ P.answered → r = .isMatch true :=
  ⟨h.fifo, h.served_once,
    Mailbox.Run.bounded (T := hashService argon2 n) rfl hn (fun _ _ _ _ _ _ hs => hs.2) h,
    answers_of_run h, fun _ _ _ => hashed_of_run h, fun _ _ _ _ => compared_of_run h,
    fun _ _ _ _ _ ha hb => matched_of_run hc h ha hb⟩

/-- A library without salts, whose hashes are the passwords. -/
def sampleArgon2 : Argon2 where
  hashPassword plain _ := some (String.ofList (plain.map fun b => Char.ofNat b.toNat))
  parse _ := true
  verifyPassword plain hash :=
    decide (hash = String.ofList (plain.map fun b => Char.ofNat b.toNat))

theorem correct_sampleArgon2 : sampleArgon2.Correct where
  parse _ _ _ _ := rfl
  verify plain _ hash h := decide_eq_true (Option.some.inj h).symm

/-- A password is hashed, and compared with its hash. -/
theorem hasher_serves_alice : ∃ P : HashMailbox, HashRun sampleArgon2 2 (.init ()) P ∧
    ((0, .hash "alice"), .hash "alice") ∈ P.answered ∧
    ((1, .compare "alice" "alice"), .isMatch true) ∈ P.answered ∧ P.queue.length ≤ 2 := by
  obtain ⟨P₁, h₁, hidle₁, hq₁, hsent₁, -, hans₁⟩ := Mailbox.exists_exchange
    (T := hashService sampleArgon2 2) (P := .init ()) (i := 0) (m := .hash "alice")
    (r := .hash "alice") (s := ()) rfl rfl (List.nodup_singleton 0) trivial
    ⟨⟨"", by decide +kernel⟩, rfl⟩
  obtain ⟨P₂, h₂, -, -, -, -, hans₂⟩ := Mailbox.exists_exchange
    (T := hashService sampleArgon2 2) (P := P₁) (i := 1) (m := .compare "alice" "alice")
    (r := .isMatch true) (s := ()) hidle₁ hq₁
    (by
      show ((P₁.sent ++ [_]).map Prod.fst).Nodup
      rw [hsent₁]
      decide) trivial ⟨⟨"", by decide +kernel⟩, rfl⟩
  have hrun := h₁.trans h₂
  have hhash : ((0, .hash "alice"), .hash "alice") ∈ P₂.answered := by
    rw [hans₂, hans₁]
    decide
  have hcompare : ((1, .compare "alice" "alice"), .isMatch true) ∈ P₂.answered := by
    rw [hans₂, hans₁]
    decide
  exact ⟨P₂, hrun, hhash, hcompare,
    (hasher_serves correct_sampleArgon2 (by decide) hrun).2.2.1⟩

end Runs

end Rauthy

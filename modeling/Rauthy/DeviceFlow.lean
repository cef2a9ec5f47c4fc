/-
Rauthy/DeviceFlow.lean

The device flow as a system: devices that start it, users that accept or decline, and
devices that poll, any number of them in any interleaving, from a server that holds no
device code yet.

The record of a device code is rewritten by both sides.  What they never change is who
asked for it, with which client and secret, for which scope and until when; and only a
request in an authenticated session puts its user into the record.  So every copy of a
record, in the cache or in the hands of a request, stems from its start and, once it is
verified, from an acceptance.

Main result: `device_tokens_approved`, what a poll that gets tokens can rely on.
-/
import Rauthy.CodeRedemption
import Rauthy.Devices

namespace Rauthy

open Prog Pool

/-! ### The system -/

inductive DeviceReq where
  | start (req : HttpRequest) (payload : DeviceGrantRequest)
  | verify (req : HttpRequest) (payload : DeviceVerifyRequest)
  | poll (peerIp : Option String) (payload : TokenRequest)
  deriving DecidableEq

inductive DeviceReply where
  | started (a : DeviceAuthAnswer)
  | verified (a : DeviceVerifyAnswer)
  | polled (a : DeviceAnswer)
  deriving DecidableEq

def DeviceReq.prog (data : AppState) : DeviceReq → M ErrorResponse DeviceReply
  | start req payload => do return .started (← postDeviceAuth data req payload)
  | verify req payload => do return .verified (← postDeviceVerify data req payload)
  | poll peerIp payload => do return .polled (← grantTypeDeviceCode data peerIp payload)

abbrev DeviceOutcome := Except (Fault ErrorResponse) DeviceReply

abbrev DeviceEvent := Event DeviceReq Op Op.Res DeviceOutcome

abbrev DeviceLog := Log DeviceReq Op Op.Res DeviceOutcome

abbrev DevicePool := Pool DeviceReq Op Op.Res World (Fault ErrorResponse) DeviceReply

/-! ### What a request does to the device codes -/

section Steps

variable (data : AppState)

/-- The request has found the record `c` under the user code `k`. -/
def FoundCode (k : String) (c : DeviceAuthCode) (tr : List (Seen Op Op.Res)) : Prop :=
  ⟨.cacheGet .deviceCodes k, .ok (some (.deviceAuthCode c))⟩ ∈ tr

/-- The client was cached under the key of `id`, or has this id. -/
def ClientOf (id : String) (client : Client) (tr : List (Seen Op Op.Res)) : Prop :=
  ⟨.cacheGet .c12hr (Client.getCacheEntry id), .ok (some (.client client))⟩ ∈ tr ∨ client.id = id

/-- The user was cached under the key of `id`, or has this id. -/
def UserOf (id : String) (user : User) (tr : List (Seen Op Op.Res)) : Prop :=
  ⟨.cacheGet .users (User.cacheIdx id), .ok (some (.user user))⟩ ∈ tr ∨ user.id = id

/-- A request saves the record `c`: it creates one, it notes a poll in one that nobody has
verified, or its user accepts one. -/
inductive Puts (tr : List (Seen Op Op.Res)) : DeviceReq → DeviceAuthCode → Prop
  | created {req : HttpRequest} {payload : DeviceGrantRequest} {client : Client} {ms : Int}
      {deviceCode : String} (hnow : ⟨.now, ms⟩ ∈ tr) (hrand : ⟨.getRand 64, deviceCode⟩ ∈ tr)
      (hclient : ClientOf payload.clientId client tr)
      (hfirst : ∀ k v x, ⟨.cachePut .deviceCodes k v, x⟩ ∉ tr) :
      Puts tr (.start req payload)
        { clientId := client.id, deviceCode, verifiedBy := none,
          exp := ms + data.deviceGrantCodeLifetime * 1000, lastPoll := ms,
          scopes := payload.scope, clientSecret := payload.clientSecret, warnings := 0 }
  | polled {peerIp : Option String} {payload : TokenRequest} {k : String} {c : DeviceAuthCode}
      (hfound : FoundCode k c tr) (honly : ∀ k' c', FoundCode k' c' tr → c' = c)
      (hopen : c.verifiedBy = none) (lastPoll : Int) (warnings : ℕ) :
      Puts tr (.poll peerIp payload) { c with lastPoll, warnings }
  | accepted {req : HttpRequest} {payload : DeviceVerifyRequest} {c : DeviceAuthCode}
      {s : Session} {uid : String} (hfound : FoundCode payload.userCode c tr)
      (haccept : payload.deviceAccepted = .accept) (hsession : SessionOf req s tr)
      (hstate : s.state = .auth) (huid : s.userId = some uid) :
      Puts tr (.verify req payload) { c with verifiedBy := some uid }

/-- A request deletes the record `c`: it has expired, its user declines it, or it is polled
when it is verified or has two warnings already. -/
inductive Deletes (tr : List (Seen Op Op.Res)) : DeviceReq → DeviceAuthCode → Prop
  | expired {q : DeviceReq} {k : String} {c : DeviceAuthCode} {ms : Int} (hfound : FoundCode k c tr)
      (hnow : ⟨.now, ms⟩ ∈ tr) (hexp : c.exp < ms) : Deletes tr q c
  | declined {req : HttpRequest} {payload : DeviceVerifyRequest} {c : DeviceAuthCode}
      (hfound : FoundCode payload.userCode c tr) (hdecline : payload.deviceAccepted = .decline) :
      Deletes tr (.verify req payload) c
  | polled {peerIp : Option String} {payload : TokenRequest} {k : String} {c : DeviceAuthCode}
      (hfound : FoundCode k c tr) (hpoll : c.verifiedBy.isSome ∨ 2 ≤ c.warnings) :
      Deletes tr (.poll peerIp payload) c

/-- What an operation of a request does to the device codes; the users and clients that
it caches stand under their ids. -/
def DeviceStep (q : DeviceReq) (tr : List (Seen Op Op.Res)) (v : Seen Op Op.Res) : Prop :=
  match v.1 with
  | .cachePut .deviceCodes k v => ∃ c, v = .deviceAuthCode c ∧ Puts data tr q c ∧
      Text.sliceTo c.deviceCode data.deviceGrantUserCodeLength = some k
  | .cacheDel .deviceCodes k => ∃ c, Deletes tr q c ∧
      Text.sliceTo c.deviceCode data.deviceGrantUserCodeLength = some k
  | .cachePut .users k (.user u) => k = User.cacheIdx u.id
  | .cachePut .c12hr k (.client c) => k = Client.getCacheEntry c.id
  | _ => True

end Steps

section Sees

variable {data : AppState} {q : DeviceReq} {tr : List (Seen Op Op.Res)} {c : DeviceAuthCode}
  {req : HttpRequest} {p : Principal} {s : Session} {peerIp : Option String}
  {payload : TokenRequest}
  {cs : List (CacheName × Slot)}

/-- Everything but device codes, and the writes of two more kinds of entries, is free. -/
theorem deviceStep_allows (ts : List Table)
    (hcs : ∀ p ∈ cs, p.1 ≠ .deviceCodes ∧ p ≠ (.users, .user) ∧ p ≠ (.c12hr, .client)) :
    Allows (DeviceStep data q) ts cs := by
  intro o ho hd tr x
  cases o with
  | cachePut n k v =>
      obtain ⟨h₁, h₂, h₃⟩ := hcs _ ho
      cases n with
      | deviceCodes => exact absurd rfl h₁
      | users =>
          cases v with
          | user u => exact absurd rfl h₂
          | _ => trivial
      | c12hr =>
          cases v with
          | client cl => exact absurd rfl h₃
          | _ => trivial
      | _ => trivial
  | cacheDel n k => exact absurd hd not_false
  | _ => trivial

theorem deviceStep_tokens : Allows (DeviceStep data q) [] TokenSet.slots :=
  deviceStep_allows [] (by simp [TokenSet.slots])

theorem deviceStep_session : Allows (DeviceStep data q) [.sessions] [(.sessions, .session)] :=
  deviceStep_allows _ (by simp)

theorem deviceStep_free : Allows (DeviceStep data q) [] [] := deviceStep_allows [] (by simp)

theorem sees_findUser {id : String} :
    Sees Op.Possible (DeviceStep data q) (User.find id) (fun u tr' => UserOf id u tr') tr := by
  refine sees_mono (User.sees_find deviceStep_free fun tr u x hu => ?_) fun u tr' _ h => ?_
  · show User.cacheIdx id = User.cacheIdx u.id
    rw [hu]
  · exact Or.imp_right And.left h

theorem sees_findClient {id : String} :
    Sees Op.Possible (DeviceStep data q) (Client.find id) (fun c tr' => ClientOf id c tr') tr := by
  refine Client.sees_find deviceStep_free fun tr c x hc => ?_
  show Client.getCacheEntry id = Client.getCacheEntry c.id
  rw [hc]

/-! The functions of a device code -/

theorem sees_delete (h : Deletes tr q c) :
    Sees Op.Possible (DeviceStep data q) (c.delete data) (fun _ _ => True) tr := by
  refine sees_bind sees_unwrap fun key tr₁ _ ⟨htr₁, hkey⟩ => ?_
  rw [htr₁]
  refine sees_mono (sees_cacheDel fun x => ?_) fun _ _ _ _ => trivial
  exact ⟨c, h, hkey⟩

/-- The deletion whose error is ignored: it is tried in any case. -/
theorem sees_tryDelete {c' : DeviceAuthCode} (h : Deletes tr q c)
    (hc : c'.deviceCode = c.deviceCode) :
    Sees Op.Possible (DeviceStep data q) (ignoreErr (c'.delete data)) (fun _ tr' =>
      ∃ k x, Text.sliceTo c.deviceCode data.deviceGrantUserCodeLength = some k ∧
        tr' = ⟨.cacheDel .deviceCodes k, x⟩ :: tr) tr := by
  unfold ignoreErr DeviceAuthCode.delete DeviceAuthCode.userCode sliceTo
  rw [hc]
  rcases hk : Text.sliceTo c.deviceCode data.deviceGrantUserCodeLength with - | k
  · exact sees_fail
  · refine sees_call (o := Op.cacheDel .deviceCodes k) (fun x _ => ⟨c, h, hk⟩) fun x _ => ?_
    cases x with
    | ok u => exact sees_ret ⟨k, _, rfl, rfl⟩
    | error e => exact sees_ret ⟨k, _, rfl, rfl⟩

theorem sees_save (h : Puts data tr q c) :
    Sees Op.Possible (DeviceStep data q) (c.save data) (fun _ tr' =>
      ∃ k, Text.sliceTo c.deviceCode data.deviceGrantUserCodeLength = some k ∧
        tr' = ⟨.cachePut .deviceCodes k (.deviceAuthCode c), .ok ()⟩ :: tr) tr := by
  refine sees_bind sees_unwrap fun key tr₁ _ ⟨htr₁, hkey⟩ => ?_
  rw [htr₁]
  refine sees_mono (sees_cachePut fun x => ⟨c, rfl, h, hkey⟩) fun _ tr₂ _ htr₂ => ?_
  exact ⟨key, hkey, htr₂⟩

/-- A record that is found has not expired when the clock is read. -/
theorem sees_findCode {k : String} :
    Sees Op.Possible (DeviceStep data q) (DeviceAuthCode.find data k) (fun x tr' =>
      ∀ c, x = some c → ∃ ms : Int, ms ≤ c.exp ∧
        tr' = ⟨.now, ms⟩ :: ⟨.cacheGet .deviceCodes k, .ok (some (.deviceAuthCode c))⟩ :: tr)
      tr := by
  refine sees_bind (sees_cacheGet fun x => deviceStep_free (.cacheGet _ _) trivial trivial _ x)
    fun x tr₁ _ hx => ?_
  obtain ⟨y, htr₁, ⟨rfl, rfl⟩ | ⟨v, c, rfl, rfl, hc⟩⟩ := hx
  · exact sees_ret fun c h => by cases h
  · rw [CacheVal.deviceAuthCode?_eq_some.mp hc] at htr₁
    refine sees_bind (sees_now deviceStep_free.now) fun ms tr₂ _ htr₂ => ?_
    split
    · next hexp =>
        have hdel : Deletes tr₂ q c := by
          have hfound : FoundCode k c tr₂ := by
            rw [FoundCode, htr₂, htr₁]
            exact List.mem_cons_of_mem _ List.mem_cons_self
          refine .expired hfound ?_ hexp
          rw [htr₂]
          exact List.mem_cons_self
        exact sees_bind (sees_delete hdel) fun _ _ _ _ => sees_ret fun c h => by cases h
    · next hexp =>
        refine sees_ret fun c' h => ?_
        cases h
        exact ⟨ms, Int.not_lt.mp hexp, by rw [htr₂, htr₁]⟩

/-! The requests -/

/-- What a start request does before it creates its code puts no device code. -/
theorem sees_beforeCode {α : Type} {p : M ErrorResponse α} {F : α → List (Seen Op Op.Res) → Prop}
    {ts : List Table} (hp : Sees Op.Possible (DeviceStep data q) p F tr) (ht : Touches ts cs p)
    (hcs : ∀ p ∈ cs, p.1 ≠ .deviceCodes) (htr : ∀ k v x, ⟨.cachePut .deviceCodes k v, x⟩ ∉ tr) :
    Sees Op.Possible (DeviceStep data q) p
      (fun a tr' => F a tr' ∧ ∀ k v x, ⟨.cachePut .deviceCodes k v, x⟩ ∉ tr') tr := by
  refine sees_mono (hp.within ht) fun a tr' _ ⟨ha, hnew⟩ => ⟨ha, fun k v x hmem => ?_⟩
  rcases hnew _ hmem with h | h
  · exact htr k v x h
  · exact hcs _ h rfl

theorem sees_checkRateLimit :
    Sees Op.Possible (DeviceStep data q) (checkRateLimit data req) (fun _ _ => True) tr := by
  unfold checkRateLimit
  split
  · exact sees_ret trivial
  · split
    · exact sees_ret trivial
    · next ip _ =>
        refine sees_bind (F := fun _ _ => True) ?_ fun limited tr₁ _ _ => ?_
        · refine sees_bind (sees_tried (sees_cacheGet fun x => ?_)) fun r tr₁ _ _ => ?_
          · exact deviceStep_free (.cacheGet _ _) trivial trivial _ x
          · rcases r with e | dt <;> exact sees_ret trivial
        · rcases limited with - | dt
          · refine sees_bind (sees_ignoreErr (sees_cachePut fun x => trivial)) fun _ _ _ _ => ?_
            exact sees_ret trivial
          · exact sees_ret trivial

theorem checkRateLimit_touches (data : AppState) (req : HttpRequest) :
    Touches [] [(.ipRateLimit, .bytes)] (checkRateLimit data req) := by
  unfold checkRateLimit
  split
  · exact touches_ret _
  · split
    · exact touches_ret _
    · refine touches_bind (touches_bind (touches_attempt (touches_cacheGet _ _ _)) fun r => ?_)
        fun limited => ?_
      · rcases r with e | dt <;> exact touches_ret _
      · rcases limited with - | dt
        · exact touches_bind (touches_ignoreErr (touches_cachePut (by simp [CacheVal.slot]) _))
            fun _ => touches_ret _
        · exact touches_ret _

theorem sees_newCode {payload : DeviceGrantRequest} {client : Client}
    (hclient : ClientOf payload.clientId client tr)
    (hfirst : ∀ k v x, ⟨.cachePut .deviceCodes k v, x⟩ ∉ tr) :
    Sees Op.Possible (DeviceStep data (.start req payload))
      (DeviceAuthCode.new data payload.scope client.id payload.clientSecret)
      (fun _ _ => True) tr := by
  refine sees_bind (sees_now deviceStep_free.now) fun ms tr₁ hsub₁ htr₁ => ?_
  refine sees_bind (sees_getRand fun s => trivial) fun deviceCode tr₂ hsub₂ htr₂ => ?_
  refine sees_bind sees_unwrap fun key tr₃ _ ⟨htr₃, hkey⟩ => ?_
  rw [htr₃]
  refine sees_bind (sees_cachePut fun x => ⟨_, rfl, .created ?_ ?_ ?_ ?_, hkey⟩)
    fun _ _ _ _ => sees_ret trivial
  · refine hsub₂ _ ?_
    rw [htr₁]
    exact List.mem_cons_self
  · rw [htr₂]
    exact List.mem_cons_self
  · exact Or.imp_left (fun h => hsub₂ _ (hsub₁ _ h)) hclient
  · intro k v x hmem
    rw [htr₂, htr₁] at hmem
    simp only [List.mem_cons, Sigma.mk.injEq, reduceCtorEq, false_and, false_or] at hmem
    exact hfirst k v x hmem

theorem sees_postDeviceAuth {payload : DeviceGrantRequest} :
    Sees Op.Possible (DeviceStep data (.start req payload)) (postDeviceAuth data req payload)
      (fun _ _ => True) [] := by
  refine sees_bind (sees_beforeCode sees_checkRateLimit (checkRateLimit_touches data req) (by simp)
    (by simp)) fun r tr₁ _ ⟨_, hfirst₁⟩ => ?_
  rcases r with - | a
  · refine sees_bind (sees_beforeCode (sees_tried sees_findClient)
      (touches_attempt (Client.find_touches payload.clientId)) (by simp) hfirst₁)
      fun r tr₂ _ ⟨hr, hfirst₂⟩ => ?_
    rcases r with e | client
    · exact sees_ret trivial
    · simp only
      split
      · exact sees_ret trivial
      · refine sees_bind (sees_tried (sees_newCode (hr client rfl) hfirst₂)) fun r tr₃ _ _ => ?_
        rcases r with e | code
        · exact sees_ret trivial
        · exact sees_bind sees_unwrap fun _ _ _ _ => sees_ret trivial
  · exact sees_ret trivial

/-- What the answer to the user's decision says about the code that was found. -/
def Decided (data : AppState) (payload : DeviceVerifyRequest) (tr : List (Seen Op Op.Res)) :
    DeviceVerifyAnswer → Prop
  | .accepted => payload.deviceAccepted = .accept ∧ ∃ k c uid, FoundCode payload.userCode c tr ∧
      Text.sliceTo c.deviceCode data.deviceGrantUserCodeLength = some k ∧
      ⟨.cachePut .deviceCodes k (.deviceAuthCode { c with verifiedBy := some uid }), .ok ()⟩ ∈ tr
  | .declined => payload.deviceAccepted = .decline ∧ ∃ k c, FoundCode payload.userCode c tr ∧
      Text.sliceTo c.deviceCode data.deviceGrantUserCodeLength = some k ∧
      ⟨.cacheDel .deviceCodes k, .ok ()⟩ ∈ tr
  | .pending _ => True

theorem Principal.validateSessionAuth_ok (h : p.validateSessionAuth = .ok s) :
    p.session = some s ∧ s.state = .auth := by
  obtain ⟨hs, hstate⟩ := validateSessionIn_ok.mp h
  exact ⟨hs, by simpa using hstate⟩

theorem Principal.tryUserId_ok {uid : String}
    (hs : p.session = some s) (h : p.tryUserId = .ok uid) : s.userId = some uid := by
  unfold Principal.tryUserId Principal.userId at h
  rw [hs, Option.bind_some] at h
  split at h
  · next id hid => cases h; exact hid
  · cases h

theorem sees_decideDevice {payload : DeviceVerifyRequest} (hfound : FoundCode payload.userCode c tr)
    (hs : p.session = some s) (hsession : SessionOf req s tr) (hstate : s.state = .auth) :
    Sees Op.Possible (DeviceStep data (.verify req payload))
      (decideDevice data p c payload.deviceAccepted) (fun a tr' => Decided data payload tr' a)
      tr := by
  rcases hd : payload.deviceAccepted with _ | _ | _
  · refine sees_bind sees_answer fun uid tr₁ _ ⟨htr₁, huid⟩ => ?_
    rw [htr₁]
    have hput : Puts data tr (.verify req payload) { c with verifiedBy := some uid } :=
      .accepted hfound hd hsession hstate (Principal.tryUserId_ok hs huid)
    refine sees_bind (sees_save hput) fun _ tr₂ hsub₂ ⟨k, hk, htr₂⟩ => sees_ret ⟨hd, ?_⟩
    refine ⟨k, c, uid, hsub₂ _ hfound, hk, ?_⟩
    rw [htr₂]
    exact List.mem_cons_self
  · refine sees_bind (F := fun _ tr' => ∃ k,
      Text.sliceTo c.deviceCode data.deviceGrantUserCodeLength = some k ∧
      ⟨.cacheDel .deviceCodes k, .ok ()⟩ ∈ tr') ?_ fun _ tr₁ hsub₁ ⟨k, hk, hmem⟩ => ?_
    · refine sees_bind sees_unwrap fun key tr₁ _ ⟨htr₁, hkey⟩ => ?_
      rw [htr₁]
      refine sees_mono (sees_cacheDel fun x => ⟨c, .declined hfound hd, hkey⟩)
        fun _ tr₂ _ htr₂ => ⟨key, hkey, ?_⟩
      rw [htr₂]
      exact List.mem_cons_self
    · exact sees_ret ⟨hd, k, c, hsub₁ _ hfound, hk, hmem⟩
  · exact sees_ret trivial

theorem sees_postDeviceVerify {payload : DeviceVerifyRequest} :
    Sees Op.Possible (DeviceStep data (.verify req payload)) (postDeviceVerify data req payload)
      (fun a tr' => Decided data payload tr' a) [] := by
  refine sees_bind (sees_getPrincipal deviceStep_session.sessions) fun p tr₁ _ hp => ?_
  refine sees_bind sees_answer fun s tr₂ hsub₂ ⟨_, hs⟩ => ?_
  obtain ⟨hsome, hstate⟩ := Principal.validateSessionAuth_ok hs
  refine sees_bind sees_answer fun challenge tr₃ hsub₃ _ => ?_
  refine sees_bind (F := fun _ _ => True) ?_ fun _ tr₄ hsub₄ _ => ?_
  · refine sees_bind (sees_cacheGet fun x => deviceStep_free (.cacheGet _ _) trivial trivial _ x)
      fun x tr₄ _ _ => ?_
    refine sees_bind sees_okOr fun pow tr₅ _ _ => ?_
    exact sees_mono (sees_cacheDel fun x => trivial) fun _ _ _ _ => trivial
  refine sees_bind sees_findCode fun x tr₅ hsub₅ hx => ?_
  refine sees_bind sees_okOr fun c tr₆ hsub₆ ⟨_, hc⟩ => ?_
  obtain ⟨ms, -, htr₅⟩ := hx c hc
  refine sees_decideDevice (hsub₆ _ ?_) hsome ?_ hstate
  · rw [htr₅]
    exact List.mem_cons_of_mem _ List.mem_cons_self
  · exact (hp s hsome).mono fun v hv => hsub₆ v (hsub₅ v (hsub₄ v (hsub₃ v (hsub₂ v hv))))

/-- A poll changes the warnings of the record only; what it deletes is verified or has two
warnings. -/
theorem sees_checkPoll {k : String} {ms : Int} (hfound : FoundCode k c tr) :
    Sees Op.Possible (DeviceStep data (.poll peerIp payload)) (checkPoll data c ms)
      (fun r tr' => (∃ warnings, r.1 = { c with warnings }) ∧
        (tr' = tr ∨ ∃ k x, tr' = ⟨.cacheDel .deviceCodes k, x⟩ :: tr)) tr := by
  unfold checkPoll
  split
  · simp only
    split
    · next hw =>
        have hdel : Deletes tr (.poll peerIp payload) c := by
          refine .polled hfound (.inr ?_)
          have hle := Nat.mod_le (c.warnings + 1) (2 ^ 8)
          omega
        refine sees_bind (sees_tryDelete hdel rfl) fun _ tr₁ _ ⟨k', x, _, htr₁⟩ => sees_ret ?_
        exact ⟨⟨_, rfl⟩, .inr ⟨k', x, htr₁⟩⟩
    · exact sees_ret ⟨⟨_, rfl⟩, .inl rfl⟩
  · exact sees_ret ⟨⟨c.warnings, rfl⟩, .inl rfl⟩

theorem sees_issueDevice {ip : Option String} {c' : DeviceAuthCode} {user : User} {client : Client}
    {ms : Int} (hdel : Deletes tr (.poll peerIp payload) c) (hc : c'.deviceCode = c.deviceCode)
    (hscopes : c'.scopes = c.scopes) :
    Sees Op.Possible (DeviceStep data (.poll peerIp payload))
      (issueDevice data ip c' user client ms) (fun a tr' => ∀ ts, a = .ok ts →
        (∃ did, ts.IsFor data user client none none c.scopes (.yes did)) ∧
        ∃ k x, Text.sliceTo c.deviceCode data.deviceGrantUserCodeLength = some k ∧
          ⟨.cacheDel .deviceCodes k, x⟩ ∈ tr') tr := by
  refine sees_bind (sees_tryDelete hdel hc) fun _ tr₁ _ ⟨k, x, hk, htr₁⟩ => ?_
  refine sees_bind (sees_getRand fun s => trivial) fun id tr₂ hsub₂ _ => ?_
  refine sees_bind (sees_tried (sees_execute fun x => trivial)) fun r tr₃ hsub₃ _ => ?_
  rcases r with e | u
  · exact sees_ret fun ts h => by cases h
  · refine sees_bind (sees_tried (sees_fromUser deviceStep_tokens
      fun _ _ _ _ _ _ _ _ _ => ?_)) fun r tr₄ hsub₄ hr => ?_
    · trivial
    rcases r with e | ts
    · exact sees_ret fun ts h => by cases h
    · refine sees_ret fun ts' h => ?_
      cases h
      refine ⟨⟨id, ?_⟩, k, x, hk, hsub₄ _ (hsub₃ _ (hsub₂ _ ?_))⟩
      · rw [← hscopes]
        exact (hr ts rfl).1
      · rw [htr₁]
        exact List.mem_cons_self

/-- What a poll has done that returns tokens: its lookup has found the record of its device
code, verified and not expired yet, and it has tried to delete it. -/
structure Redeems (data : AppState) (payload : TokenRequest) (ts : TokenSet)
    (tr : List (Seen Op Op.Res)) (k : String) (c : DeviceAuthCode) (uid : String) (ms : Int) :
    Prop where
  lookup : [⟨.now, ms⟩, ⟨.cacheGet .deviceCodes k, .ok (some (.deviceAuthCode c))⟩] <:+ tr
  alive : ms ≤ c.exp
  verified : c.verifiedBy = some uid
  deviceCode : payload.deviceCode = some c.deviceCode
  clientId : payload.clientId = some c.clientId
  clientSecret : payload.clientSecret = c.clientSecret
  tokens : ∃ user client did, UserOf uid user tr ∧ ClientOf c.clientId client tr ∧
    ts.IsFor data user client none none c.scopes (.yes did)
  deleted : ∃ k' x, Text.sliceTo c.deviceCode data.deviceGrantUserCodeLength = some k' ∧
    ⟨.cacheDel .deviceCodes k', x⟩ ∈ tr

theorem sees_grantTypeDeviceCode {ip : Option String} :
    Sees Op.Possible (DeviceStep data (.poll peerIp payload))
      (grantTypeDeviceCode data ip payload) (fun a tr' => ∀ ts, a = .ok ts →
        ∃ k c uid ms, Redeems data payload ts tr' k c uid ms) [] := by
  unfold grantTypeDeviceCode
  split
  · exact sees_ret fun ts h => by cases h
  next deviceCode hdc =>
  refine sees_bind (sees_tried (F := fun x tr' => ∀ c, x = some c → ∃ k, ∃ ms : Int, ms ≤ c.exp ∧
      tr' = [⟨.now, ms⟩, ⟨.cacheGet .deviceCodes k, .ok (some (.deviceAuthCode c))⟩]) ?_)
    fun r tr₁ _ hr => ?_
  · refine sees_bind sees_unwrap fun key tr₁ _ ⟨htr₁, _⟩ => ?_
    rw [htr₁]
    exact sees_mono sees_findCode fun x tr₂ _ h c hc => ⟨key, h c hc⟩
  rcases r with e | - | c
  · exact sees_ret fun ts h => by cases h
  · exact sees_ret fun ts h => by cases h
  obtain ⟨k, ms, halive, htr₁⟩ := hr _ rfl c rfl
  have hfound : FoundCode k c tr₁ := by
    rw [FoundCode, htr₁]
    simp
  simp only
  split
  · exact sees_ret fun ts h => by cases h
  next hclient =>
  split
  · exact sees_ret fun ts h => by cases h
  next hcode =>
  split
  · exact sees_ret fun ts h => by cases h
  next hsecret =>
  refine sees_mono (Sees.suffix (F := fun a tr' => ∀ ts, a = .ok ts → ∃ uid,
      c.verifiedBy = some uid ∧ (∃ user client did, UserOf uid user tr' ∧
        ClientOf c.clientId client tr' ∧ ts.IsFor data user client none none c.scopes (.yes did)) ∧
      ∃ k' x, Text.sliceTo c.deviceCode data.deviceGrantUserCodeLength = some k' ∧
        ⟨.cacheDel .deviceCodes k', x⟩ ∈ tr') ?_) fun a tr' _ ⟨hsuf, ha⟩ ts hts => ?_
  · refine sees_bind (sees_now deviceStep_free.now) fun ms' tr₂ hsub₂ htr₂ => ?_
    refine sees_bind (sees_checkPoll (hsub₂ _ hfound)) fun ⟨c', error, description⟩ tr₃ hsub₃ h => ?_
    obtain ⟨⟨warnings, hc'⟩, htr₃⟩ := h
    have honly : ∀ k' c', FoundCode k' c' tr₃ → c' = c := by
      intro k' c' h
      rcases htr₃ with rfl | ⟨k'', x, rfl⟩ <;> simp [FoundCode, htr₂, htr₁] at h <;> exact h.2
    have hfound₃ : FoundCode k c tr₃ := hsub₃ _ (hsub₂ _ hfound)
    simp only at hc' ⊢
    subst hc'
    simp only
    split
    · next uid huid =>
        refine sees_bind (sees_tried sees_findUser) fun r tr₄ hsub₄ hr => ?_
        rcases r with e | user
        · exact sees_ret fun ts h => by cases h
        refine sees_bind (sees_tried sees_findClient) fun r tr₅ hsub₅ hr' => ?_
        rcases r with e | client
        · exact sees_ret fun ts h => by cases h
        have hdel : Deletes tr₅ (.poll peerIp payload) c :=
          .polled (hsub₅ _ (hsub₄ _ hfound₃)) (.inl (by rw [huid]; rfl))
        refine sees_mono (sees_issueDevice hdel rfl rfl) fun a tr₆ hsub₆ h ts hts => ?_
        obtain ⟨⟨did, hfor⟩, hdeleted⟩ := h ts hts
        refine ⟨uid, huid, ⟨user, client, did, ?_, ?_, hfor⟩, hdeleted⟩
        · exact Or.imp_left (fun h => hsub₆ _ (hsub₅ _ h)) (hr user rfl)
        · exact Or.imp_left (fun h => hsub₆ _ h) (hr' client rfl)
    · next hopen =>
        refine sees_bind (sees_ignoreErr (sees_save (.polled hfound₃ honly hopen ms' warnings)))
          fun _ _ _ _ => sees_ret fun ts h => by cases h
  · obtain ⟨uid, huid, htokens, hdeleted⟩ := ha ts hts
    refine ⟨k, c, uid, ms, ?_, halive, huid, ?_, ?_, ?_, htokens, hdeleted⟩
    · rw [← htr₁]
      exact hsuf
    · rw [hdc, not_ne_iff.mp hcode]
    · exact (not_ne_iff.mp hclient).symm
    · exact (not_ne_iff.mp hsecret).symm

/-- What is promised of the answer of each request. -/
def DevicePost (data : AppState) (tr : List (Seen Op Op.Res)) : DeviceReq → DeviceReply → Prop
  | .start _ _, .started _ => True
  | .verify _ payload, .verified a => Decided data payload tr a
  | .poll _ payload, .polled (.ok ts) => ∃ k c uid ms, Redeems data payload ts tr k c uid ms
  | .poll _ _, .polled (.error _ _ _) => True
  | _, _ => False

/-- **What each request does**, whatever the others do: its operations and its answer. -/
theorem sees_deviceReq (q : DeviceReq) :
    Sees Op.Possible (DeviceStep data q) (q.prog data) (fun a tr' => DevicePost data tr' q a) [] := by
  cases q with
  | start req payload =>
      exact sees_bind sees_postDeviceAuth fun _ _ _ _ => sees_ret trivial
  | verify req payload =>
      exact sees_bind sees_postDeviceVerify fun a _ _ ha => sees_ret ha
  | poll ip payload =>
      refine sees_bind sees_grantTypeDeviceCode fun a tr₁ _ ha => sees_ret ?_
      cases a with
      | ok ts => exact ha ts rfl
      | error status e d => trivial

end Sees

/-! ### What is promised -/

/-- A server that holds no device code yet, and whose cached users and clients stand under
their ids. -/
structure Keyed (w : World) : Prop where
  codes : ∀ k, w.cache .deviceCodes k = none
  users : ∀ id u, w.cache .users (User.cacheIdx id) = some (.user u) → u.id = id
  clients : ∀ id c, w.cache .c12hr (Client.getCacheEntry id) = some (.client c) → c.id = id

/-- The record stems from a start request with `payload` that has read the clock at `ms`,
and it stands under the beginning of its device code. -/
structure StartedAs (data : AppState) (k : String) (c : DeviceAuthCode) (l : DeviceLog)
    (payload : DeviceGrantRequest) (ms : Int) : Prop where
  request : ∃ t req, .start t (.start req payload) ∈ l ∧ .op t .now ms ∈ l ∧
    .op t (.getRand 64) c.deviceCode ∈ l
  key : Text.sliceTo c.deviceCode data.deviceGrantUserCodeLength = some k
  client : c.clientId = payload.clientId
  secret : c.clientSecret = payload.clientSecret
  scope : c.scopes = payload.scope
  exp : c.exp = ms + data.deviceGrantCodeLifetime * 1000

/-- A request in an authenticated session of the user `uid` has accepted the device code
`d` under its user code `k`. -/
def AcceptedBy (uid k d : String) (l : DeviceLog) : Prop :=
  ∃ t req payload s c x, .start t (.verify req payload) ∈ l ∧ payload.userCode = k ∧
    payload.deviceAccepted = .accept ∧ SessionOf req s (seenBy t l) ∧ s.state = .auth ∧
    s.userId = some uid ∧ .op t (.cachePut .deviceCodes k (.deviceAuthCode c)) x ∈ l ∧
    c.deviceCode = d ∧ c.verifiedBy = some uid

/-- The record was started, and if it is verified by a user, that user has accepted it. -/
def Legit (data : AppState) (k : String) (c : DeviceAuthCode) (l : DeviceLog) : Prop :=
  (∃ payload ms, StartedAs data k c l payload ms) ∧
    ∀ uid, c.verifiedBy = some uid → AcceptedBy uid k c.deviceCode l

/-- What is promised of a poll that has got tokens: it has looked up a record (`l₁` is the
log before the lookup, `l₂` the one after) that was started with the very client and secret
that the poll presents and accepted by the user of the tokens, before it expired. -/
structure Approved (data : AppState) (l : DeviceLog) (t : ℕ) (poll : TokenRequest)
    (ts : TokenSet) : Prop where
  found : ∃ l₂ l₁ k c payload uid, ∃ ms₀ ms : Int,
    l = l₂ ++ .op t (.cacheGet .deviceCodes k) (.ok (some (.deviceAuthCode c))) :: l₁ ∧
    StartedAs data k c l₁ payload ms₀ ∧ AcceptedBy uid k c.deviceCode l₁ ∧
    poll.deviceCode = some c.deviceCode ∧ poll.clientId = some payload.clientId ∧
    poll.clientSecret = payload.clientSecret ∧
    .op t .now ms ∈ l₂ ∧ ms ≤ ms₀ + data.deviceGrantCodeLifetime * 1000 ∧
    ∃ kp, ∃ claims : JWTClaims JwtAccessClaims, ∃ client : Client,
      data.signJwt kp (.access claims) = .ok ts.accessToken ∧
      claims.subject = some uid ∧ claims.custom.azp = payload.clientId ∧
      client.id = payload.clientId ∧ claims.custom.scope =
        payload.scope.getD (Text.replaceChar ',' ' ' client.defaultScopes)

/-! ### The invariant -/

section Invariant

variable {data : AppState} {k : String} {c : DeviceAuthCode} {l : DeviceLog} {e : DeviceEvent}
  {t : ℕ} {w : World} {q : DeviceReq}

theorem seenBy_cons {v : Seen Op Op.Res} (h : v ∈ seenBy t l) : v ∈ seenBy t (e :: l) := by
  obtain ⟨o, x⟩ := v
  exact mem_seenBy.mpr (List.mem_cons_of_mem _ (mem_of_seenBy h))

theorem StartedAs.cons {payload : DeviceGrantRequest} {ms : Int}
    (h : StartedAs data k c l payload ms) : StartedAs data k c (e :: l) payload ms where
  request := by
    obtain ⟨t, req, h₁, h₂, h₃⟩ := h.request
    exact ⟨t, req, List.mem_cons_of_mem _ h₁, List.mem_cons_of_mem _ h₂, List.mem_cons_of_mem _ h₃⟩
  key := h.key
  client := h.client
  secret := h.secret
  scope := h.scope
  exp := h.exp

theorem AcceptedBy.cons {uid d : String} (h : AcceptedBy uid k d l) :
    AcceptedBy uid k d (e :: l) := by
  obtain ⟨t, req, payload, s, c, x, h₁, h₂, h₃, h₄, h₅, h₆, h₇, h₈⟩ := h
  exact ⟨t, req, payload, s, c, x, List.mem_cons_of_mem _ h₁, h₂, h₃,
    h₄.mono fun _ hv => seenBy_cons hv, h₅, h₆, List.mem_cons_of_mem _ h₇, h₈⟩

theorem Legit.cons (h : Legit data k c l) : Legit data k c (e :: l) := by
  obtain ⟨⟨payload, ms, hs⟩, ha⟩ := h
  exact ⟨⟨payload, ms, hs.cons⟩, fun uid hu => (ha uid hu).cons⟩

theorem Legit.append (h : Legit data k c l) (l' : DeviceLog) : Legit data k c (l' ++ l) := by
  induction l' with
  | nil => exact h
  | cons e l' ih => exact ih.cons

/-- What the operations read: records that are legitimate, users and clients by id. -/
structure ReadsWell (data : AppState) (e : DeviceEvent) (l : DeviceLog) : Prop where
  codes : ∀ t k c, e = .op t (.cacheGet .deviceCodes k) (.ok (some (.deviceAuthCode c))) →
    Legit data k c l
  users : ∀ t id u, e = .op t (.cacheGet .users (User.cacheIdx id)) (.ok (some (.user u))) →
    u.id = id
  clients : ∀ t id cl,
    e = .op t (.cacheGet .c12hr (Client.getCacheEntry id)) (.ok (some (.client cl))) → cl.id = id

/-- The invariant of the device flow. -/
structure DeviceInv (data : AppState) (w : World) (l : DeviceLog) : Prop where
  codes : ∀ k c, w.cache .deviceCodes k = some (.deviceAuthCode c) → Legit data k c l
  users : ∀ id u, w.cache .users (User.cacheIdx id) = some (.user u) → u.id = id
  clients : ∀ id c, w.cache .c12hr (Client.getCacheEntry id) = some (.client c) → c.id = id
  reads : Log.Always (ReadsWell data) l
  answers : ∀ t a, .done t (.ok a) ∈ l →
    ∃ q, .start t q ∈ l ∧ DevicePost data (seenBy t l) q a

theorem DeviceInv.found (h : DeviceInv data w l) (hf : FoundCode k c (seenBy t l)) :
    Legit data k c l := by
  obtain ⟨l₂, l₁, rfl⟩ := List.append_of_mem (mem_of_seenBy hf)
  have hread := (h.reads.of_suffix ⟨l₂, rfl⟩).codes t k c rfl
  exact (hread.cons).append l₂

theorem DeviceInv.clientOf (h : DeviceInv data w l) {id : String} {client : Client}
    (hc : ClientOf id client (seenBy t l)) : client.id = id := by
  rcases hc with hmem | hid
  · obtain ⟨l₂, l₁, rfl⟩ := List.append_of_mem (mem_of_seenBy hmem)
    exact (h.reads.of_suffix ⟨l₂, rfl⟩).clients t id client rfl
  · exact hid

theorem DeviceInv.userOf (h : DeviceInv data w l) {id : String} {user : User}
    (hu : UserOf id user (seenBy t l)) : user.id = id := by
  rcases hu with hmem | hid
  · obtain ⟨l₂, l₁, rfl⟩ := List.append_of_mem (mem_of_seenBy hmem)
    exact (h.reads.of_suffix ⟨l₂, rfl⟩).users t id user rfl
  · exact hid

theorem DeviceInv.put (h : DeviceInv data w l) (hq : .start t q ∈ l)
    (hput : Puts data (seenBy t l) q c)
    (hk : Text.sliceTo c.deviceCode data.deviceGrantUserCodeLength = some k)
    (x : Except ErrorResponse Unit) :
    Legit data k c (.op t (.cachePut .deviceCodes k (.deviceAuthCode c)) x :: l) := by
  cases hput with
  | @created req payload client ms deviceCode hnow hrand hclient hfirst =>
      refine ⟨⟨payload, ms, StartedAs.cons ?_⟩, fun uid hu => by cases hu⟩
      exact ⟨⟨t, req, hq, mem_of_seenBy hnow, mem_of_seenBy hrand⟩, hk, h.clientOf hclient, rfl,
        rfl, rfl⟩
  | @polled peerIp payload k' c₀ hfound _ hopen lastPoll warnings =>
      obtain ⟨⟨p, ms, hs⟩, ha⟩ := h.found hfound
      obtain rfl : k = k' := Option.some.inj (hk.symm.trans hs.key)
      refine ⟨⟨p, ms, StartedAs.cons ?_⟩, fun uid hu => ?_⟩
      · exact ⟨hs.request, hs.key, hs.client, hs.secret, hs.scope, hs.exp⟩
      · rw [show ({ c₀ with lastPoll, warnings } : DeviceAuthCode).verifiedBy = c₀.verifiedBy
          from rfl, hopen] at hu
        cases hu
  | @accepted req payload c₀ s uid hfound haccept hsession hstate huid =>
      obtain ⟨⟨p, ms, hs⟩, ha⟩ := h.found hfound
      obtain rfl : k = payload.userCode := Option.some.inj (hk.symm.trans hs.key)
      refine ⟨⟨p, ms, StartedAs.cons ?_⟩, fun uid' hu => ?_⟩
      · exact ⟨hs.request, hs.key, hs.client, hs.secret, hs.scope, hs.exp⟩
      · cases hu
        exact ⟨t, req, payload, s, _, x, List.mem_cons_of_mem _ hq, rfl, haccept,
          hsession.mono fun _ hv => seenBy_cons hv, hstate, huid, List.mem_cons_self, rfl, rfl⟩

/-- **One operation keeps the invariant.** -/
theorem DeviceInv.op {w' : World} (h : DeviceInv data w l) {o : Op} {x : o.Res}
    (hq : .start t q ∈ l) (hrun : Log.Running t l) (hx : sem o w x w')
    (hstep : DeviceStep data q (seenBy t l) ⟨o, x⟩) : DeviceInv data w' (.op t o x :: l) where
  codes k c hc := by
    rcases sem_cache hx hc with hold | rfl
    · exact (h.codes k c hold).cons
    · obtain ⟨c', hc', hput, hk⟩ := hstep
      cases hc'
      exact h.put hq hput hk x
  users id u hu := by
    rcases sem_cache hx hu with hold | rfl
    · exact h.users id u hold
    · exact (User.cacheIdx_inj.mp hstep).symm
  clients id cl hc := by
    rcases sem_cache hx hc with hold | rfl
    · exact h.clients id cl hold
    · exact (Client.getCacheEntry_inj.mp hstep).symm
  reads := by
    refine ⟨⟨?_, ?_, ?_⟩, h.reads⟩
    · rintro t' k c ⟨⟩
      rcases sem_cacheGet.mp hx with ⟨hv, -⟩ | ⟨hv, -⟩ | ⟨e, he, -⟩
      · exact h.codes k c (Except.ok.inj hv).symm
      · cases hv
      · cases he
    · rintro t' id u ⟨⟩
      rcases sem_cacheGet.mp hx with ⟨hv, -⟩ | ⟨hv, -⟩ | ⟨e, he, -⟩
      · exact h.users id u (Except.ok.inj hv).symm
      · cases hv
      · cases he
    · rintro t' id cl ⟨⟩
      rcases sem_cacheGet.mp hx with ⟨hv, -⟩ | ⟨hv, -⟩ | ⟨e, he, -⟩
      · exact h.clients id cl (Except.ok.inj hv).symm
      · cases hv
      · cases he
  answers t' a ha := by
    have hd : .done t' (.ok a) ∈ l := (List.mem_cons.mp ha).resolve_left (by simp)
    obtain ⟨q', hq', hpost⟩ := h.answers t' a hd
    -- the request that moves has not ended, so it is another one
    have hne : t' ≠ t := by
      rintro rfl
      exact hrun.2 _ hd
    refine ⟨q', List.mem_cons_of_mem _ hq', ?_⟩
    rw [seenBy_op_of_ne hne]
    exact hpost

theorem DeviceInv.init {w₀ : World} (hw : Keyed w₀) : DeviceInv data w₀ [] :=
  ⟨fun k c hc => absurd hc (by simp [hw.codes k]), hw.users, hw.clients, trivial, by simp⟩

theorem readsWell_event (he : ∀ t o x, e ≠ .op t o x) : ReadsWell data e l :=
  ⟨fun _ _ _ h => absurd h (he _ _ _), fun _ _ _ h => absurd h (he _ _ _),
    fun _ _ _ h => absurd h (he _ _ _)⟩

theorem DeviceInv.start (h : DeviceInv data w l) :
    DeviceInv data w (.start t q :: l) where
  codes k c hc := (h.codes k c hc).cons
  users := h.users
  clients := h.clients
  reads := ⟨readsWell_event (by simp), h.reads⟩
  answers t' a ha := by
    have hd : .done t' (.ok a) ∈ l := (List.mem_cons.mp ha).resolve_left (by simp)
    obtain ⟨q', hq', hpost⟩ := h.answers t' a hd
    exact ⟨q', List.mem_cons_of_mem _ hq', hpost⟩

theorem DeviceInv.done (h : DeviceInv data w l) {r : DeviceOutcome} (hq : .start t q ∈ l)
    (hpost : ∀ a, r = .ok a → DevicePost data (seenBy t l) q a) :
    DeviceInv data w (.done t r :: l) where
  codes k c hc := (h.codes k c hc).cons
  users := h.users
  clients := h.clients
  reads := ⟨readsWell_event (by simp), h.reads⟩
  answers t' a ha := by
    rcases List.mem_cons.mp ha with he | hd
    · cases he
      exact ⟨q, List.mem_cons_of_mem _ hq, hpost a rfl⟩
    · obtain ⟨q', hq', hpost'⟩ := h.answers t' a hd
      exact ⟨q', List.mem_cons_of_mem _ hq', hpost'⟩

/-- **The invariant of every run.** -/
theorem deviceInv_of_run {w₀ : World} (hw : Keyed w₀) {P : DevicePool}
    {C : World → DeviceLog → DeviceEvent → Prop}
    (h : Run (DeviceReq.prog data) sem C (init w₀) P) : DeviceInv data P.world P.log :=
  (Run.inv_of_seen (A := fun _ => Op.Possible) (G := DeviceStep data)
    (F := fun q r tr => ∀ a, r = .ok a → DevicePost data tr q a) (I := DeviceInv data)
    (fun q => sees_deviceReq q) (fun w _ _ _ _ _ w' _ _ hx _ => ⟨w, w', hx⟩) (.init hw)
    (fun _ _ _ _ hI _ _ => hI.start)
    (fun _ _ _ _ _ _ _ hI hq hrun hx _ hstep => hI.op hq hrun hx hstep)
    (fun _ _ _ _ _ hI hq _ _ hpost => hI.done hq hpost) h).1

/-- **Device tokens are approved.**  In any interleaving of start requests, decisions and
polls, a poll that returns tokens has looked up a record that was started with its client
and secret, accepted by the user of the tokens, and not yet expired. -/
theorem device_tokens_approved {w₀ : World} (hw : Keyed w₀) {P : DevicePool}
    (h : Run (DeviceReq.prog data) sem (fun _ _ _ => True) (init w₀) P) {t : ℕ}
    {ip : Option String} {poll : TokenRequest} {ts : TokenSet}
    (hstart : .start t (.poll ip poll) ∈ P.log)
    (hdone : .done t (.ok (.polled (.ok ts))) ∈ P.log) : Approved data P.log t poll ts := by
  have hI := deviceInv_of_run hw h
  obtain ⟨q, hq, hpost⟩ := hI.answers t _ hdone
  obtain rfl := h.start_unique hstart hq
  obtain ⟨k, c, uid, ms, hr⟩ := hpost
  obtain ⟨tr, htr⟩ := hr.lookup
  have hseen : seenBy t P.log = (tr ++ [⟨.now, ms⟩]) ++
      ⟨.cacheGet .deviceCodes k, .ok (some (.deviceAuthCode c))⟩ :: [] := by
    rw [← htr]
    simp
  obtain ⟨l₂, l₁, hl, h₂, -⟩ := split_of_seenBy hseen
  have hlegit : Legit data k c l₁ := by
    have hreads := hI.reads
    rw [hl] at hreads
    exact (hreads.of_suffix ⟨l₂, rfl⟩).codes t k c rfl
  obtain ⟨⟨payload, ms₀, hs⟩, ha⟩ := hlegit
  obtain ⟨user, client, did, huser, hclient, hfor⟩ := hr.tokens
  obtain ⟨kp, claims, hsign, hsub, hazp, hscope, -, -⟩ := hfor.access
  have hid : client.id = payload.clientId := (hI.clientOf hclient).trans hs.client
  refine ⟨l₂, l₁, k, c, payload, uid, ms₀, ms, hl, hs, ha uid hr.verified, hr.deviceCode, ?_, ?_,
    ?_, ?_, kp, claims, client, hsign, ?_, hazp.trans hid, hid, ?_⟩
  · rw [hr.clientId, hs.client]
  · rw [hr.clientSecret, hs.secret]
  · refine mem_of_seenBy ?_
    rw [h₂]
    simp
  · rw [← hs.exp]
    exact hr.alive
  · rw [hsub, hI.userOf huser]
  · rw [hscope, hs.scope]

end Invariant

/-! ### Alice and her television -/

def deviceSession : Session where
  id := "s"
  csrfToken := "csrf"
  userId := some "alice"
  roles := some "admin"
  groups := none
  isMfa := false
  state := .auth
  exp := 14500
  lastSeen := 100
  remoteIp := none

def deviceClient : Client :=
  { sampleClient with flowsEnabled := "urn:ietf:params:oauth:grant-type:device_code" }

/-- Alice has a session, and has solved a challenge. -/
def deviceWorld : World where
  clock := 100000
  issued := []
  db _ := []
  cache
    | .sessions, "session_s" => some (.session deviceSession)
    | .pow, "pow" => some (.pow "pow")
    | .c12hr, "client_app" => some (.client deviceClient)
    | .c12hr, "jwk_latest_EdDSA" => some (.jwkKeyPair ⟨"kid", .edDSA, []⟩)
    | .users, "users__alice" => some (.user sampleUser)
    | _, _ => none

theorem keyed_deviceWorld : Keyed deviceWorld where
  codes _ := rfl
  users id u h := by
    simp only [deviceWorld] at h
    split at h
    · cases h
    · cases h
    · next hc _ => cases hc
    · next hc _ => cases hc
    · next heq =>
        cases h
        exact (User.cacheIdx_inj.mp (heq.trans (by decide : _ = User.cacheIdx "alice"))).symm
    · cases h
  clients id c h := by
    simp only [deviceWorld] at h
    split at h
    · cases h
    · cases h
    · next heq =>
        cases h
        exact (Client.getCacheEntry_inj.mp
          (heq.trans (by decide : _ = Client.getCacheEntry "app"))).symm
    · cases h
    · next hc _ => cases hc
    · cases h

/-- The device code that the server draws; its first eight characters are the user code. -/
def deviceCode : String := String.ofList (List.replicate 64 'a')

def startReq : DeviceReq := .start default { clientId := "app", clientSecret := none, scope := none }

def decideReq (d : DeviceAcceptedRequest) : DeviceReq :=
  .verify { (default : HttpRequest) with sessionCookie := some "s", csrfToken := some "csrf" }
    { userCode := "aaaaaaaa", pow := "pow", deviceAccepted := d }

def pollRequest : TokenRequest :=
  { (default : TokenRequest) with
    grantType := grantTypeDeviceCodeName, clientId := some "app", deviceCode := some deviceCode }

/-- A start request that creates the device code. -/
def startMoves (t : ℕ) : List (Move DeviceReq Choice) :=
  [.start t startReq, .op t .ok, .op t (.time 100000), .op t (.rand deviceCode), .op t .ok, .done t]

/-- What comes before the device code is looked up by a decision, and the lookup. -/
def decideMoves (t : ℕ) (d : DeviceAcceptedRequest) : List (Move DeviceReq Choice) :=
  [.start t (decideReq d), .op t .ok, .op t (.time 101000), .op t (.time 101000), .op t .ok,
    .op t .ok, .op t .ok, .op t (.time 101000)]

/-- The lookup of a poll at the time `ms`, up to the second reading of the clock. -/
def lookupMoves (t : ℕ) (ms : Int) : List (Move DeviceReq Choice) :=
  [.start t (.poll none pollRequest), .op t .ok, .op t (.time ms), .op t (.time ms)]

/-- A poll that has found the code verified: the user, the client, the deletion, the device
and the tokens. -/
def issueMoves (t : ℕ) (ms : Int) (id : String) : List (Move DeviceReq Choice) :=
  [.op t .ok, .op t .ok, .op t .ok, .op t (.rand id), .op t .ok, .op t (.time ms), .op t .ok,
    .op t (.time ms), .op t (.time ms), .op t .ok, .done t]

theorem device_tokens_approved_alice :
    ∃ P ts, Run (DeviceReq.prog sampleState) sem (fun _ _ _ => True) (init deviceWorld) P ∧
      .done 2 (.ok (.polled (.ok ts))) ∈ P.log ∧
      Approved sampleState P.log 2 pollRequest ts := by
  obtain ⟨P, hrun, hlog⟩ := exists_run_of_moves (C := fun _ _ _ => True)
    (DeviceReq.prog sampleState) Op.run (fun _ _ _ => true) deviceWorld
    (startMoves 0 ++ decideMoves 1 .accept ++ [.op 1 .ok, .done 1] ++ lookupMoves 2 106000 ++
      issueMoves 2 106000 "abcdefghijklmnopqrstuvwx")
    (fun P => decide (Log.startOf 2 P.log = some (.poll none pollRequest) ∧
      Log.doneOf 2 P.log = some (.ok (.polled (.ok codeTokens)))))
    (by decide +kernel) (fun _ _ _ _ => trivial)
  obtain ⟨hs, hd⟩ := of_decide_eq_true hlog
  exact ⟨P, codeTokens, hrun, Log.mem_of_doneOf hd,
    device_tokens_approved keyed_deviceWorld hrun (Log.mem_of_startOf hs) (Log.mem_of_doneOf hd)⟩

end Rauthy

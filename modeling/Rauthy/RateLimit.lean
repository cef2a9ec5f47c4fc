/-
Rauthy/RateLimit.lean

The limit of requests that start a device flow (`ip_rate_limit.rs`), for any number of such
requests in any interleaving.

`insert` keeps the configured number of seconds, an `Option<u32>` of five bytes, and
`is_limited` reads the entry as the text of a time, which begins with a length of eight
bytes.  So the entry is never decoded, and the error counts as no limit.

Main result: `limits_nobody`, no request is ever refused because of the limit.
-/
import Rauthy.DeviceFlow

namespace Rauthy

open Prog Pool Bincode

variable {data : AppState} {n : ℕ}
  {w : World} {ip : String} {payload : DeviceGrantRequest}
  {cs : List (CacheName × Slot)}

/-! ### What is kept and what is read -/

namespace DeviceIpRateLimit

theorem length_encode : (encode (some n)).length = 5 := by
  show (1 :: leBytes 4 n).length = 5
  rw [List.length_cons, length_leBytes]

/-- The five bytes of a number are too short for the length of a text. -/
theorem decode_encode : decode data (encode (some n)) = none := by
  have hshort : decInt 8 (encode (some n)) = none := by
    apply decInt_of_length_lt
    rw [length_encode]
    decide
  have hstr : decStr (encode (some n)) = none := by
    unfold decStr
    rw [hshort]
    rfl
  unfold decode
  rw [hstr]
  rfl

theorem decoded_encode :
    CacheVal.decoded? (decode data) (.bytes (encode (some n))) = none := by
  show (decode data (encode (some n))).map Prod.fst = none
  rw [decode_encode, Option.map_none]

end DeviceIpRateLimit

/-! ### Requests -/

/-- The entry of an IP is what `insert` has kept for it. -/
def Noted (n : ℕ) (w : World) (ip : String) : Prop :=
  ∀ v, w.cache .ipRateLimit ip = some v → v = .bytes (DeviceIpRateLimit.encode (some n))

theorem Noted.del (h : Noted n w ip) (c : CacheName) (k : String) :
    Noted n (w.del c k) ip := by
  intro v hv
  rw [World.del_cache] at hv
  split at hv
  · cases hv
  · exact h v hv

theorem Noted.put {k : String} (h : Noted n w ip) :
    Noted n (w.put .ipRateLimit k (.bytes (DeviceIpRateLimit.encode (some n)))) ip := by
  intro v hv
  rw [World.put_cache] at hv
  split at hv
  · exact (Option.some.inj hv).symm
  · exact h v hv

theorem Noted.frame {ts : List Table} {w' : World} (h : Noted n w ip) (hf : Frame ts cs w w')
    (hcs : ∀ p ∈ cs, p.1 ≠ .ipRateLimit) :
    Noted n w' ip := by
  intro v hv
  rcases hf.cache _ _ v hv with hv | hmem
  · exact h v hv
  · exact absurd rfl (hcs _ hmem)

/-- The answer to an IP that is limited: `429 Too Many Requests`. -/
def DeviceAuthAnswer.IsLimited : DeviceAuthAnswer → Prop
  | .ok _ => False
  | .error status _ _ => status = 429

theorem keeps_aside {ε α : Type} {ts : List Table} {p : Prog Op Op.Res ε α} (hp : Touches ts cs p)
    (hcs : ∀ p ∈ cs, p.1 ≠ .ipRateLimit) :
    Keeps sem (fun w => ∀ ip, Noted n w ip) p fun _ => True :=
  keeps_of_touches hp fun _ _ hf hw ip => (hw ip).frame hf hcs

theorem keeps_isLimited :
    Keeps sem (fun w => ∀ ip, Noted n w ip) (DeviceIpRateLimit.isLimited data ip) (· = none) := by
  have hget : Keeps sem (fun w => ∀ ip, Noted n w ip)
      (cacheGet .ipRateLimit ip (CacheVal.decoded? (DeviceIpRateLimit.decode data)))
      (· = none) := by
    refine keeps_cacheGet (fun w hw ip' => (hw ip').del _ _) rfl fun w v dt hw hv hdt => ?_
    rw [hw ip v hv, DeviceIpRateLimit.decoded_encode] at hdt
    cases hdt
  refine keeps_bind (keeps_tried hget) fun r hr => ?_
  rcases r with e | dt
  · exact keeps_ret rfl
  · exact keeps_ret (hr dt rfl)

theorem keeps_checkRateLimit (hn : data.deviceGrantRateLimit = some n) {req : HttpRequest} :
    Keeps sem (fun w => ∀ ip, Noted n w ip) (checkRateLimit data req)
      (fun x => ∀ a, x = some a → ¬ a.IsLimited) := by
  unfold checkRateLimit
  rw [hn]
  simp only
  split
  · -- the IP is not known
    refine keeps_ret fun a ha => ?_
    cases ha
    show ¬ (500 : ℕ) = 429
    omega
  · next ip _ =>
      refine keeps_bind keeps_isLimited fun x hx => ?_
      rw [hx]
      have hput : Keeps sem (fun w => ∀ ip, Noted n w ip) (DeviceIpRateLimit.insert data ip)
          fun _ => True := by
        unfold DeviceIpRateLimit.insert
        rw [hn]
        exact keeps_cachePut fun w hw ip' => (hw ip').put
      refine keeps_bind (F := fun _ => True) ?_ fun _ _ => keeps_ret fun a ha => by cases ha
      exact keeps_bind (keeps_tried hput) fun _ _ => keeps_ret trivial

theorem checkDeviceClient_isLimited {client : Client} {a : DeviceAuthAnswer}
    (h : checkDeviceClient data client payload = some a) :
    ¬ a.IsLimited := by
  have hstatus : ∀ {status : ℕ} {e : OAuth2ErrorTypeResponse} {d : String}, status ≠ 429 →
      ¬ (DeviceAuthAnswer.error status e d).IsLimited := fun h => h
  unfold checkDeviceClient at h
  split at h
  · cases h; exact hstatus (by decide)
  · split at h
    · cases h; exact hstatus (by decide)
    · split at h
      · cases h; exact hstatus (by decide)
      · split at h
        · split at h
          · cases h; exact hstatus (by decide)
          · cases h
        · cases h

theorem keeps_createDeviceCode {client : Client} :
    Keeps sem (fun w => ∀ ip, Noted n w ip) (createDeviceCode data client payload)
      (fun a => ¬ a.IsLimited) := by
  have hnew : Keeps sem (fun w => ∀ ip, Noted n w ip)
      (DeviceAuthCode.new data payload.scope client.id payload.clientSecret) fun _ => True := by
    have htouches : Touches [] [(.deviceCodes, .deviceAuthCode)]
        (DeviceAuthCode.new data payload.scope client.id payload.clientSecret) :=
      touches_bind touches_now fun _ => touches_bind (touches_getRand _) fun _ =>
        touches_bind (touches_unwrap _ _) fun _ =>
          touches_bind (touches_cachePut (by simp [CacheVal.slot]) _) fun _ => touches_ret _
    exact keeps_aside htouches (by simp)
  refine keeps_bind (keeps_tried hnew) fun r _ => ?_
  rcases r with e | code
  · refine keeps_ret ?_
    show ¬ (500 : ℕ) = 429
    omega
  · refine keeps_bind (F := fun _ => True) ?_ fun _ _ => keeps_ret id
    have htouches : Touches [] [] (code.userCode data : M ErrorResponse String) :=
      touches_unwrap _ _
    exact keeps_aside htouches (by simp)

theorem keeps_postDeviceAuth (hn : data.deviceGrantRateLimit = some n) {req : HttpRequest} :
    Keeps sem (fun w => ∀ ip, Noted n w ip) (postDeviceAuth data req payload)
      (fun a => ¬ a.IsLimited) := by
  refine keeps_bind (keeps_checkRateLimit hn) fun x hx => ?_
  rcases x with - | a
  · have hfind : Keeps sem (fun w => ∀ ip, Noted n w ip) (Client.find payload.clientId)
        fun _ => True := keeps_aside (Client.find_touches payload.clientId) (by simp)
    refine keeps_bind (keeps_tried hfind) fun r _ => ?_
    rcases r with e | client
    · refine keeps_ret ?_
      show ¬ (404 : ℕ) = 429
      omega
    · simp only
      split
      · next a ha => exact keeps_ret (checkDeviceClient_isLimited ha)
      · exact keeps_createDeviceCode
  · exact keeps_ret (hx a rfl)

/-! ### No limit -/

/-- What the limiter is for: once an IP has been inserted, a lookup that finds its entry answers
with a limit. -/
def LimitsInserted (data : AppState) (ip : String) : Prop :=
  ∀ w w₁ w₂ x, Exec sem (DeviceIpRateLimit.insert data ip) w (.ok ()) w₁ →
    w₂.cache .ipRateLimit ip = w₁.cache .ipRateLimit ip →
    Exec semUp (DeviceIpRateLimit.isLimited data ip) w₂ (.ok x) w₂ → x.isSome

/-- The requests that start a device flow. -/
abbrev StartPool := Pool (HttpRequest × DeviceGrantRequest) Op Op.Res World (Fault ErrorResponse)
  DeviceAuthAnswer

def startProg (data : AppState) (q : HttpRequest × DeviceGrantRequest) :
    M ErrorResponse DeviceAuthAnswer := postDeviceAuth data q.1 q.2

/-- An entry that has been inserted is never read as a limit: the lookup finds nothing, or it
fails, with the error of the cache or with the one of the decoder. -/
theorem outcomes_isLimited (hw : Noted n w ip) :
    Outcomes sem (DeviceIpRateLimit.isLimited data ip) w fun r _ => r = .ok none := by
  have hget : Outcomes sem
      (cacheGet .ipRateLimit ip (CacheVal.decoded? (DeviceIpRateLimit.decode data))) w
      fun r _ => r = .ok none ∨ ∃ e, r = .error (.err e) := by
    refine outcomes_bind (outcomes_call fun x w₁ hx => ?_)
    rcases sem_cacheGet.mp hx with ⟨rfl, rfl⟩ | ⟨rfl, rfl⟩ | ⟨e, rfl, rfl⟩
    · rcases hv : w₁.cache .ipRateLimit ip with - | v
      · exact outcomes_ret (outcomes_ret (.inl rfl))
      · rw [hw v hv]
        refine outcomes_ret (outcomes_bind ?_)
        rw [DeviceIpRateLimit.decoded_encode]
        exact outcomes_fail (.inr ⟨_, rfl⟩)
    · exact outcomes_ret (outcomes_ret (.inl rfl))
    · exact outcomes_fail (.inr ⟨e, rfl⟩)
  refine outcomes_bind (outcomes_tried (outcomes_mono hget fun r w₁ hr => ?_))
  rcases hr with rfl | ⟨e, rfl⟩
  · exact outcomes_ret rfl
  · exact outcomes_ret rfl

/-- A lookup that the cache answers with the entry fails to decode it. -/
theorem exec_isLimited_inserted :
    Exec semUp (DeviceIpRateLimit.isLimited data ip)
      (w.put .ipRateLimit ip (.bytes (DeviceIpRateLimit.encode (some n)))) (.ok none)
      (w.put .ipRateLimit ip (.bytes (DeviceIpRateLimit.encode (some n)))) := by
  refine exec_bind_ok.mpr ⟨.error ⟨.internal, "Internal Cache error: Deserialization"⟩, _,
    exec_tried.mpr ?_, rfl, rfl⟩
  refine ⟨.ok (some (.bytes (DeviceIpRateLimit.encode (some n)))), _,
    ⟨sem_cacheGet.mpr (.inl ⟨?_, rfl⟩), ⟨_, rfl⟩⟩, ?_⟩
  · rw [World.put_cache, if_pos ⟨rfl, rfl⟩]
  · show Exec semUp (okOr _ (CacheVal.decoded? (DeviceIpRateLimit.decode data)
      (.bytes (DeviceIpRateLimit.encode (some n)))) >>= fun a => ret (some a)) _ _ _
    rw [DeviceIpRateLimit.decoded_encode]
    exact ⟨rfl, rfl⟩

/-- Nobody is limited who is inserted and looked up at once. -/
theorem not_limitsInserted (hn : data.deviceGrantRateLimit = some n) :
    ¬ LimitsInserted data ip := by
  intro h
  let w : World := { clock := 0, issued := [], db := fun _ => [], cache := fun _ _ => none }
  have hins : Exec sem (DeviceIpRateLimit.insert data ip) w (.ok ())
      (w.put .ipRateLimit ip (.bytes (DeviceIpRateLimit.encode (some n)))) := by
    unfold DeviceIpRateLimit.insert
    rw [hn]
    exact exec_cachePut.mpr rfl
  cases h w _ _ none hins rfl exec_isLimited_inserted

/-- **Nobody is limited**: with a limit configured, no IP that has been inserted is answered
with one, and no request of any run that starts without entries is refused because of it. -/
theorem limits_nobody (data : AppState) (n : ℕ) (hn : data.deviceGrantRateLimit = some n) :
    (∀ ip, ¬ LimitsInserted data ip) ∧
    (∀ ip w w₁ w₂ r w₃, Exec sem (DeviceIpRateLimit.insert data ip) w (.ok ()) w₁ →
      w₂.cache .ipRateLimit ip = w₁.cache .ipRateLimit ip →
      Exec sem (DeviceIpRateLimit.isLimited data ip) w₂ r w₃ → r = .ok none) ∧
    ∀ C w₀ (P : StartPool), (∀ ip, w₀.cache .ipRateLimit ip = none) →
      Run (startProg data) sem C (init w₀) P →
      ∀ t a, .done t (.ok a) ∈ P.log → ¬ a.IsLimited := by
  have hnone : ∀ ip w w₁ w₂ r w₃, Exec sem (DeviceIpRateLimit.insert data ip) w (.ok ()) w₁ →
      w₂.cache .ipRateLimit ip = w₁.cache .ipRateLimit ip →
      Exec sem (DeviceIpRateLimit.isLimited data ip) w₂ r w₃ → r = .ok none := by
    intro ip w w₁ w₂ r w₃ hins hkept hget
    refine outcomes_isLimited (n := n) (fun v hv => ?_) r w₃ hget
    unfold DeviceIpRateLimit.insert at hins
    rw [hn] at hins
    rw [hkept, exec_cachePut.mp hins, World.put_cache, if_pos ⟨rfl, rfl⟩] at hv
    exact (Option.some.inj hv).symm
  refine ⟨fun ip => not_limitsInserted hn, hnone, fun C w₀ P hw₀ hrun t a hdone => ?_⟩
  have hinit : ∀ ip, Noted n w₀ ip := by
    intro ip v hv
    rw [hw₀ ip] at hv
    cases hv
  have hkeeps := Run.keeps (I := fun w => ∀ ip, Noted n w ip) (F := fun _ a => ¬ a.IsLimited)
    hinit (fun _ _ _ _ _ => keeps_postDeviceAuth hn) hrun
  obtain ⟨-, -, hF⟩ := hkeeps
  obtain ⟨q, -, ha⟩ := hF t a hdone
  exact ha

/-! ### Two televisions behind one address -/

/-- A server that allows one request in a minute. -/
def limitState : AppState := { sampleState with deviceGrantRateLimit := some 60 }

def limitedReq : HttpRequest × DeviceGrantRequest :=
  ({ (default : HttpRequest) with realIp := some "192.0.2.7" },
    { clientId := "app", clientSecret := none, scope := none })

/-- A request that finds the client and gets a code made of the character `c`. -/
def limitedMoves (t : ℕ) (c : Char) : List (Move (HttpRequest × DeviceGrantRequest) Choice) :=
  [.start t limitedReq, .op t .ok, .op t .ok, .op t .ok, .op t (.time 100000),
    .op t (.rand (String.ofList (List.replicate 64 c))), .op t .ok, .done t]

/-- The answer with this code. -/
def limitedCode (c : Char) : DeviceCodeResponse where
  deviceCode := String.ofList (List.replicate 64 c)
  userCode := String.ofList (List.replicate 8 c)
  verificationUri := "https://localhost/auth/v1/device"
  verificationUriComplete :=
    "https://localhost/auth/v1/device?code=" ++ String.ofList (List.replicate 8 c)
  expiresIn := 300
  interval := 5

theorem limits_nobody_sixty : limitState.deviceGrantRateLimit = some 60 ∧
    ¬ LimitsInserted limitState "192.0.2.7" :=
  ⟨rfl, (limits_nobody limitState 60 rfl).1 "192.0.2.7"⟩

/-- The second request is served in the same second, while the entry of the first one is still
there. -/
theorem limit_ignored :
    (¬ ∀ (data : AppState) (n : ℕ) (ip : String), data.deviceGrantRateLimit = some n →
      LimitsInserted data ip) ∧
    ∃ P, Run (startProg limitState) semUp (fun _ _ _ => True) (init deviceWorld) P ∧
      Log.startOf 0 P.log = some limitedReq ∧ Log.startOf 1 P.log = some limitedReq ∧
      Log.doneOf 0 P.log = some (.ok (.ok (limitedCode 'a'))) ∧
      Log.doneOf 1 P.log = some (.ok (.ok (limitedCode 'b'))) ∧
      P.world.cache .ipRateLimit "192.0.2.7" =
        some (.bytes (DeviceIpRateLimit.encode (some 60))) := by
  refine ⟨fun h => ?_, ?_⟩
  · exact not_limitsInserted rfl (h limitState 60 "192.0.2.7" rfl)
  · obtain ⟨P, hrun, hlog⟩ := exists_run_of_moves (C := fun _ _ _ => True) (startProg limitState)
      Op.runUp (fun _ _ _ => true) deviceWorld (limitedMoves 0 'a' ++ limitedMoves 1 'b')
      (fun P => decide (Log.startOf 0 P.log = some limitedReq ∧
        Log.startOf 1 P.log = some limitedReq ∧
        Log.doneOf 0 P.log = some (.ok (.ok (limitedCode 'a'))) ∧
        Log.doneOf 1 P.log = some (.ok (.ok (limitedCode 'b'))) ∧
        P.world.cache .ipRateLimit "192.0.2.7" =
          some (.bytes (DeviceIpRateLimit.encode (some 60)))))
      (by decide +kernel) (fun _ _ _ _ => trivial)
    exact ⟨P, hrun.of_sem fun _ _ _ _ h => semUp_of_runUp h, of_decide_eq_true hlog⟩

end Rauthy

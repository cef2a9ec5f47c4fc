/-
Rauthy/RefreshFlow.lean

Refresh tokens as a system: clients that use them, the other grants that issue them, the
invalidations of an administrator, a logout or an expired user, and the scheduler that
cleans up (`refresh_tokens_cleanup` of `rauthy-main/src/schedulers.rs`).

A refresh token is found by the end of its signature.  Signatures draw noise, so the ends
of two tokens are different; this is what `SuffixesDistinct` asks of the signatures.
-/
import Rauthy.Auth

namespace Rauthy

open Prog Pool

variable {noise : String}

/-- One tick of `refresh_tokens_cleanup` -/
def refreshTokensCleanup : M ErrorResponse Unit := do
  let now ← unixTimestamp
  ignoreErr (execute [.delete .refreshTokens fun r => decide (r.exp < now)])

/-! ### The system -/

/-- The requests; `issue` is the end of any other grant, for whatever user and client it has
found. -/
inductive RefreshReq where
  | issue (user : User) (client : Client) (fingerprint nonce scopes : Option String)
      (authCodeFlow : AuthCodeFlow) (deviceCodeFlow : DeviceCodeFlow)
  | refresh (req : HttpRequest) (payload : TokenRequest)
  | invalidateAll
  | invalidateForUser (userId : String)
  | cleanup
  deriving DecidableEq

inductive RefreshReply where
  | tokens (ts : TokenSet) (headers : Headers)
  | done
  deriving DecidableEq

def RefreshReq.prog (data : AppState) : RefreshReq → M ErrorResponse RefreshReply
  | issue user client fp nonce scopes acf dcf => do
      return .tokens (← TokenSet.fromUser data user client fp nonce scopes acf dcf) []
  | refresh req payload => do
      let (ts, headers) ← grantTypeRefresh data req payload
      return .tokens ts headers
  | invalidateAll => do
      RefreshToken.invalidateAll
      return .done
  | invalidateForUser uid => do
      RefreshToken.invalidateForUser uid
      return .done
  | cleanup => do
      refreshTokensCleanup
      return .done

abbrev RefreshOutcome := Except (Fault ErrorResponse) RefreshReply

abbrev RefreshEvent := Event RefreshReq Op Op.Res RefreshOutcome

abbrev RefreshLog := Log RefreshReq Op Op.Res RefreshOutcome

abbrev RefreshPool := Pool RefreshReq Op Op.Res World (Fault ErrorResponse) RefreshReply

/-! ### The ends of refresh tokens -/

/-- `token` was signed with this noise, and is found by `id`. -/
def StoredAs (data : AppState) (noise token id : String) : Prop :=
  (∃ kp claims, data.signJwt kp (.refresh noise claims) = .ok token) ∧
    Text.lastBytes token 49 = some id

/-- Noise as it is drawn for a signature. -/
def IsNoise (noise : String) : Prop := noise.toList.length = 16 ∧ noise.toList.all isAlnum = true

instance (noise : String) : Decidable (IsNoise noise) := inferInstanceAs (Decidable (_ ∧ _))

/-- Tokens with different noise are found by different ends. -/
def SuffixesDistinct (data : AppState) : Prop :=
  ∀ noise noise' token token' id, IsNoise noise → IsNoise noise' → StoredAs data noise token id →
    StoredAs data noise' token' id → noise = noise'

/-- The row belongs to a refresh token that was signed with noise that was drawn. -/
def RowSigned (data : AppState) (w : World) (r : RefreshToken) : Prop :=
  ∃ noise token, IsNoise noise ∧ noise ∈ w.issued ∧ StoredAs data noise token r.id

/-- The primary key of the table. -/
def UniqueRows (w : World) : Prop :=
  ∀ r ∈ w.db .refreshTokens, ∀ r' ∈ w.db .refreshTokens, r.id = r'.id → r = r'

/-- The table holds rows of signed tokens, one for each. -/
structure RowsSigned (data : AppState) (w : World) : Prop where
  signed : ∀ r ∈ w.db .refreshTokens, RowSigned data w r
  unique : UniqueRows w

/-! ### Alice's refresh tokens -/

/-- The refresh token of Alice with this noise. -/
def aliceToken (noise : String) : String := "refresh token, found by its end: " ++ noise

def aliceClaims : JwtRefreshClaims := { azp := "app", typ := .refresh, uid := "alice", cnf := none }

/-- A server that signs refresh tokens for Alice only, and knows them again. -/
def refreshState : AppState :=
  { sampleState with
    signJwt := fun _ claims =>
      match claims with
      | .access _ => .ok "access token"
      | .id _ => .ok "id token"
      | .refresh noise c =>
          if c.custom = aliceClaims then .ok (aliceToken noise)
          else .error ⟨.internal, "not for Alice"⟩
    validateRefreshJwt := fun _ token now =>
      if "refresh token, found by its end: ".toList.isPrefixOf token.toList then
        .ok { issuedAt := now, expiresAt := now + 48 * 3600, invalidBefore := now, issuer := "",
              subject := none, audiences := ["app"], nonce := none, custom := aliceClaims }
      else .error ⟨.unauthorized, "invalid token"⟩ }

theorem signJwt_refreshState (kp : JwkKeyPair) (noise : String) (c : JWTClaims JwtRefreshClaims) :
    refreshState.signJwt kp (.refresh noise c) =
      if c.custom = aliceClaims then .ok (aliceToken noise)
      else .error ⟨.internal, "not for Alice"⟩ := rfl

theorem lastBytes_aliceToken (h : IsNoise noise) :
    Text.lastBytes (aliceToken noise) 49 = some (aliceToken noise) := by
  refine Text.lastBytes_self ?_ (by decide)
  have hnoise : Text.len noise = 16 := by
    rw [Text.len_of_ascii fun c hc => utf8Size_of_isAlnum (List.all_eq_true.mp h.2 c hc)]
    exact h.1
  have hpad : Text.len "refresh token, found by its end: " = 33 := by decide +kernel
  unfold aliceToken Text.len at *
  rw [String.utf8ByteSize_append, hpad, hnoise]

theorem aliceToken_injective : Function.Injective aliceToken := fun _ _ h =>
  (String.append_right_inj _).mp h

theorem id_of_storedAs {token id : String} (hn : IsNoise noise)
    (h : StoredAs refreshState noise token id) : id = aliceToken noise := by
  obtain ⟨⟨kp, claims, hsigned⟩, hid⟩ := h
  rw [signJwt_refreshState] at hsigned
  split at hsigned
  · rw [← Except.ok.inj hsigned, lastBytes_aliceToken hn] at hid
    exact (Option.some.inj hid).symm
  · cases hsigned

theorem suffixesDistinct_refreshState : SuffixesDistinct refreshState := by
  intro noise noise' token token' id hn hn' h h'
  have hid : id = aliceToken noise := id_of_storedAs hn h
  have hid' : id = aliceToken noise' := id_of_storedAs hn' h'
  exact aliceToken_injective (hid.symm.trans hid')

def refreshingClient : Client :=
  { sampleClient with refreshToken := true, flowsEnabled := "refresh_token" }

/-- Alice's first refresh token was signed with this noise. -/
def firstNoise : String := "aaaaaaaaaaaaaaaa"

def firstRow : RefreshToken where
  id := aliceToken firstNoise
  userId := "alice"
  nbf := 90
  exp := 10000
  scope := none
  isMfa := false

def refreshWorld : World where
  clock := 100000
  issued := [firstNoise]
  db
    | .refreshTokens => [firstRow]
    | _ => []
  cache
    | .c12hr, "client_app" => some (.client refreshingClient)
    | .c12hr, "jwk_kid_kid" => some (.jwkKeyPair ⟨"kid", .edDSA, []⟩)
    | .c12hr, "jwk_latest_EdDSA" => some (.jwkKeyPair ⟨"kid", .edDSA, []⟩)
    | .users, "users__alice" => some (.user sampleUser)
    | _, _ => none

theorem storedAs_refreshState (h : IsNoise noise) :
    StoredAs refreshState noise (aliceToken noise) (aliceToken noise) := by
  refine ⟨⟨⟨"kid", .edDSA, []⟩, { (default : JWTClaims JwtRefreshClaims) with
    custom := aliceClaims }, ?_⟩, lastBytes_aliceToken h⟩
  rw [signJwt_refreshState, if_pos rfl]

theorem rowsSigned_refreshWorld : RowsSigned refreshState refreshWorld where
  signed r hr := by
    rw [List.mem_singleton.mp hr]
    have hn : IsNoise firstNoise := by decide +kernel
    exact ⟨firstNoise, _, hn, List.mem_singleton_self _, storedAs_refreshState hn⟩
  unique r hr r' hr' _ := by
    rw [List.mem_singleton.mp hr, List.mem_singleton.mp hr']

/-- A use of the refresh token with this noise. -/
def useRequest (noise : String) : TokenRequest :=
  { (default : TokenRequest) with
    grantType := "refresh_token", clientId := some "app", refreshToken := some (aliceToken noise) }

/-- A use at the time `ms`, up to the second reading of the clock: the client, the key and
the row. -/
def lookMoves (t : ℕ) (noise : String) (ms : Int) : List (Move RefreshReq Choice) :=
  [.start t (.refresh default (useRequest noise)), .op t .ok, .op t .ok, .op t (.time ms),
    .op t .ok, .op t (.time ms)]

/-- The user is loaded and saved, and the clock is read once more. -/
def userMoves (t : ℕ) (ms : Int) : List (Move RefreshReq Choice) :=
  [.op t .ok, .op t (.time ms), .op t .ok, .op t .ok, .op t .ok, .op t (.time ms)]

end Rauthy

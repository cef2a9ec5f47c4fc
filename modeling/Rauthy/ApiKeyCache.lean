/-
Rauthy/ApiKeyCache.lean

Validations of API keys while the keys are created, updated, deleted and given new secrets, in
any interleaving.

A validation reads the key from the 12-hour cache, or from the table and then fills the cache;
an operation on the key writes the table and then evicts the entry.  Between the read and the
fill of a validation both can happen, and an update writes back the secret that it has read, as
a rotation does with the access rights.

Main results:
  * `retired_keys_refused`: if neither happens, then the key that a validation goes by has its
    secret, its expiry and its rights from the operations that were done before it started, or
    from later ones;
  * `deleted_key_accepted`: a key that is deleted while it is validated lives on in the cache.
-/
import Rauthy.ApiKeys
import Rauthy.Lib.Bincode
import Rauthy.Lib.Tickets

namespace Rauthy

open Prog Pool

/-! ### The requests -/

/-- The operation neither writes API keys nor caches one. -/
def Op.KeepsKeys : Op → Prop
  | .execute ss => ∀ s ∈ ss, s.table ≠ .apiKeys
  | .cachePut _ _ v => v.slot ≠ .apiKey
  | _ => True

/-- The operation is no statement either. -/
def Op.ReadsKeys : Op → Prop
  | .execute _ => False
  | .cachePut _ _ v => v.slot ≠ .apiKey
  | _ => True

inductive KeyReq where
  | create (name : String) (expires : Option Int) (access : List ApiKeyAccess)
  | update (name : String) (expires : Option Int) (access : List ApiKeyAccess)
  | generateSecret (name : String)
  | delete (name : String)
  | validate (token : String)
  | other (p : M ErrorResponse Unit) (hp : p.Within Op.KeepsKeys)

namespace KeyReq

/-- A validation answers the key that the request is judged by. -/
def prog (data : AppState) : KeyReq → M ErrorResponse (Option ApiKey)
  | create name expires access => do
      let _ ← ApiKeyEntity.create data name expires access
      return none
  | update name expires access => do ApiKeyEntity.update data name expires access; return none
  | generateSecret name => do let _ ← ApiKeyEntity.generateSecret data name; return none
  | delete name => do ApiKeyEntity.delete name; return none
  | validate token => do return some (← ApiKeyEntity.apiKeyFromTokenValidated data token)
  | other p _ => do p; return none

/-- The request ends the secret of the key. -/
def Rekeys (q : KeyReq) (name : String) : Prop := q = generateSecret name ∨ q = delete name

/-- The request ends the expiry and the access rights of the key. -/
def Regrants (q : KeyReq) (name : String) : Prop :=
  (∃ expires access, q = update name expires access) ∨ q = delete name

end KeyReq

abbrev KeyOutcome := Except (Fault ErrorResponse) (Option ApiKey)

abbrev KeyEvent := Event KeyReq Op Op.Res KeyOutcome

abbrev KeyLog := Log KeyReq Op Op.Res KeyOutcome

abbrev KeyPool := Pool KeyReq Op Op.Res World (Fault ErrorResponse) (Option ApiKey)

/-! ### Where a key comes from -/

section Sources

variable (data : AppState)

/-- Request `t` has drawn the secret that the key is stored with. -/
def IssuedBy (name : String) (secret : Bytes) (t : ℕ) (l : KeyLog) : Prop :=
  ∃ q plain, .start t q ∈ l ∧
    (q = .generateSecret name ∨ ∃ expires access, q = .create name expires access) ∧
    .op t (.getRand 64) plain ∈ l ∧ secret = data.sha256 (Text.asBytes plain)

/-- Request `t` has asked for this expiry and these rights. -/
def GrantedBy (name : String) (expires : Option Int) (access : List ApiKeyAccess) (t : ℕ)
    (l : KeyLog) : Prop :=
  .start t (.update name expires access) ∈ l ∨ .start t (.create name expires access) ∈ l

/-- Request `t` has tried to write. -/
def Wrote (t : ℕ) (l : KeyLog) : Prop := ∃ ss x, .op t (.execute ss) x ∈ l

/-- What the request `q` ends in the key has been set anew by a write in `m`. -/
structure Sourced (name : String) (key : ApiKey) (q : KeyReq) (m l : KeyLog) : Prop where
  secret : q.Rekeys name → ∃ t, Wrote t m ∧ IssuedBy data name key.secret t l
  rights : q.Regrants name → ∃ t, Wrote t m ∧ GrantedBy name key.expires key.access t l

/-- Whatever a write has ended, the key has from that write on; of the writes that count. -/
def Since (counts : ℕ → KeyLog → Prop) (name : String) (key : ApiKey) (l : KeyLog) : Prop :=
  ∀ l₂ t ss l₁ q, l = l₂ ++ .op t (.execute ss) (.ok ()) :: l₁ → .start t q ∈ l₁ → counts t l₂ →
    Sourced data name key q (l₂ ++ [.op t (.execute ss) (.ok ())]) l

/-- Request `t` has evicted the key. -/
def Evicted (name : String) (t : ℕ) (l : KeyLog) : Prop :=
  .op t (.cacheDel .c12hr (ApiKeyEntity.cacheIdx name)) (.ok ()) ∈ l

/-- **Retired keys are refused.**  A validation goes by a secret that matches, and whatever an
operation had ended before the validation started, the key has from that operation on. -/
def RetiredRefused (l : KeyLog) : Prop :=
  ∀ l₃ t token l₂ key, l = l₃ ++ .start t (.validate token) :: l₂ → .done t (.ok (some key)) ∈ l →
    ∃ name secret, Text.splitOnce token "$" = some (name, secret) ∧
      key.secret = data.sha256 (Text.asBytes secret) ∧
      ∀ t' q a, .start t' q ∈ l₂ → .done t' (.ok a) ∈ l₂ → q.Rekeys name ∨ q.Regrants name →
        ∃ l₅ ss l₄, l = l₅ ++ .op t' (.execute ss) (.ok ()) :: l₄ ∧
          Sourced data name key q (l₅ ++ [.op t' (.execute ss) (.ok ())]) l

/-- No operation comes in between: an update and a rotation write only while the row that they
have read is there, and a validation does not cache a row that it has read before a write whose
request has evicted the key since. -/
structure Undisturbed (w : World) (l : KeyLog) (e : KeyEvent) : Prop where
  write : ∀ t q ss x, e = .op t (.execute ss) x → .start t q ∈ l →
    (∃ name, q = .generateSecret name ∨ ∃ expires access, q = .update name expires access) →
    ∀ p r rows, .op t (.select .apiKeys p) (.ok (r :: rows)) ∈ l → r ∈ w.db .apiKeys
  fill : ∀ t name key x, e = .op t (.cachePut .c12hr (ApiKeyEntity.cacheIdx name) (.apiKey key)) x →
    ∀ l₂ t' ss l₁, l = l₂ ++ .op t' (.execute ss) (.ok ()) :: l₁ → Evicted name t' l₂ →
      ∀ p rows, .op t (.select .apiKeys p) (.ok rows) ∉ l₁

/-- What is encrypted can be decrypted, and access rights can be read back. -/
structure Restores : Prop where
  decrypt : ∀ b c, data.encrypt b = .ok c → data.decrypt c = .ok b
  access : ∀ a, data.deserializeAccess (data.serializeAccess a) = .ok a

end Sources

/-! ### What each request does -/

section Steps

variable (data : AppState)

/-- The row has been read. -/
def ReadRow (name : String) (r : ApiKeyEntity) (tr : List (Seen Op Op.Res)) : Prop :=
  ∃ p rows, ⟨.select .apiKeys p, .ok (r :: rows)⟩ ∈ tr ∧ r.name = name

/-- The statements of the requests that write API keys. -/
inductive KeyWrite (tr : List (Seen Op Op.Res)) : KeyReq → List DbWrite → Prop
  | create {name : String} {expires : Option Int} {access : List ApiKeyAccess} {created : Int}
      {plain : String} {secret accessEnc : Bytes} (hdraw : ⟨.getRand 64, plain⟩ ∈ tr)
      (hs : data.encrypt (data.sha256 (Text.asBytes plain)) = .ok secret)
      (ha : data.encrypt (data.serializeAccess access) = .ok accessEnc) :
      KeyWrite tr (.create name expires access) [.insert .apiKeys
        { name, secret, created, expires, encKeyId := data.encKeyActive, access := accessEnc }]
  | update {name : String} {expires : Option Int} {access : List ApiKeyAccess} {r : ApiKeyEntity}
      {key : ApiKey} {secret accessEnc : Bytes} (hr : ReadRow name r tr)
      (hkey : r.intoApiKey data = .ok key) (hs : data.encrypt key.secret = .ok secret)
      (ha : data.encrypt (data.serializeAccess access) = .ok accessEnc) :
      KeyWrite tr (.update name expires access) [.update .apiKeys (fun k => k.name == name) fun k =>
        { k with secret, expires, encKeyId := data.encKeyActive, access := accessEnc }]
  | generateSecret {name : String} {r : ApiKeyEntity} {key : ApiKey} {plain : String}
      {secret access : Bytes} (hr : ReadRow name r tr) (hkey : r.intoApiKey data = .ok key)
      (hdraw : ⟨.getRand 64, plain⟩ ∈ tr)
      (hs : data.encrypt (data.sha256 (Text.asBytes plain)) = .ok secret)
      (ha : data.encrypt (data.serializeAccess key.access) = .ok access) :
      KeyWrite tr (.generateSecret name) [.update .apiKeys (fun k => k.name == name) fun k =>
        { k with secret, encKeyId := data.encKeyActive, access }]
  | delete {name : String} :
      KeyWrite tr (.delete name) [.delete .apiKeys fun k => k.name == name]

/-- What a request does to the API keys: it writes, or it caches a row that it has read. -/
inductive KeyStep (q : KeyReq) (tr : List (Seen Op Op.Res)) : Seen Op Op.Res → Prop
  | aside {o : Op} {x : o.Res} (h : o.ReadsKeys) : KeyStep q tr ⟨o, x⟩
  | other {o : Op} {x : o.Res} {p : M ErrorResponse Unit} {hp : p.Within Op.KeepsKeys}
      (hq : q = .other p hp) (h : o.KeepsKeys) : KeyStep q tr ⟨o, x⟩
  | fill {name : String} {r : ApiKeyEntity} {key : ApiKey} {x : Except ErrorResponse Unit}
      (hr : ReadRow name r tr) (hkey : r.intoApiKey data = .ok key) :
      KeyStep q tr ⟨.cachePut .c12hr (ApiKeyEntity.cacheIdx name) (.apiKey key), x⟩
  | write {ss : List DbWrite} {x : Except ErrorResponse Unit} (h : KeyWrite data tr q ss) :
      KeyStep q tr ⟨.execute ss, x⟩

/-- The write of a request, and the eviction after it. -/
def Finished (name : String) (tr : List (Seen Op Op.Res)) : Prop :=
  ∃ ss tr', tr = ⟨.cacheDel .c12hr (ApiKeyEntity.cacheIdx name), .ok ()⟩ ::
    ⟨.execute ss, .ok ()⟩ :: tr'

/-- A validation has found its key in the cache or in the table, and the secret matches. -/
def KeyValidated (token : String) (key : ApiKey) (tr : List (Seen Op Op.Res)) : Prop :=
  ∃ name secret, Text.splitOnce token "$" = some (name, secret) ∧
    key.secret = data.sha256 (Text.asBytes secret) ∧
    (⟨.cacheGet .c12hr (ApiKeyEntity.cacheIdx name), .ok (some (.apiKey key))⟩ ∈ tr ∨
      ∃ r, ReadRow name r tr ∧ r.intoApiKey data = .ok key)

/-- How the requests end. -/
def KeyEnd : KeyReq → Option ApiKey → List (Seen Op Op.Res) → Prop
  | .create _ _ _, _, _ => True
  | .update name _ _, _, tr => Finished name tr
  | .generateSecret name, _, tr => Finished name tr
  | .delete name, _, tr => Finished name tr
  | .validate token, r, tr => ∀ key, r = some key → KeyValidated data token key tr
  | .other _ _, r, _ => r = none

variable {data} {q : KeyReq} {tr : List (Seen Op Op.Res)}

theorem ReadRow.mono {name : String} {r : ApiKeyEntity} {tr' : List (Seen Op Op.Res)}
    (h : ReadRow name r tr) (hsub : ∀ v ∈ tr, v ∈ tr') : ReadRow name r tr' := by
  obtain ⟨p, rows, hmem, hn⟩ := h
  exact ⟨p, rows, hsub _ hmem, hn⟩

/-- What finds a key and checks its secret may be done. -/
structure AllowsKeys (data : AppState) (G : List (Seen Op Op.Res) → Seen Op Op.Res → Prop) :
    Prop where
  now : ∀ tr x, G tr ⟨.now, x⟩
  find : ∀ tr p x, G tr ⟨.select .apiKeys p, x⟩
  get : ∀ tr name x, G tr ⟨.cacheGet .c12hr (ApiKeyEntity.cacheIdx name), x⟩
  fill : ∀ tr name r key x, ReadRow name r tr → r.intoApiKey data = .ok key →
    G tr ⟨.cachePut .c12hr (ApiKeyEntity.cacheIdx name) (.apiKey key), x⟩

theorem KeyStep.allows : AllowsKeys data (KeyStep data q) where
  now _ _ := .aside trivial
  find _ _ _ := .aside trivial
  get _ _ _ := .aside trivial
  fill _ _ _ _ _ hr hkey := .fill hr hkey

section Validation

variable {G : List (Seen Op Op.Res) → Seen Op Op.Res → Prop} (hG : AllowsKeys data G)

include hG

theorem sees_findKey {name : String} : Sees Op.Possible G (ApiKeyEntity.find name)
    (fun r tr' => ReadRow name r tr') tr := by
  refine sees_mono (sees_fetchOne fun x => hG.find _ _ x) fun r tr' _ ⟨⟨rows, htr⟩, hr⟩ => ?_
  exact ⟨_, rows, by rw [htr]; exact List.mem_cons_self, beq_iff_eq.mp hr⟩

/-- The secret fits, and the key has not expired at a time that was read. -/
theorem sees_validateSecret {key : ApiKey} {secret : String} :
    Sees Op.Possible G (key.validateSecret data secret)
      (fun _ tr' => key.secret = data.sha256 (Text.asBytes secret) ∧
        ∀ exp, key.expires = some exp → ∃ ms : Int, ⟨.now, ms⟩ ∈ tr' ∧ ms / 1000 ≤ exp) tr := by
  -- the comparison of the secrets comes last, whether the key expires or not
  have hrest : ∀ {F : List (Seen Op Op.Res) → Prop} {tr' : List (Seen Op Op.Res)}, F tr' →
      Sees Op.Possible G (throwIf (data.sha256 (Text.asBytes secret) ≠ key.secret)
        (err .unauthorized "Invalid API-Key"))
        (fun _ tr'' => key.secret = data.sha256 (Text.asBytes secret) ∧ F tr'') tr' := by
    intro F tr' hF
    refine sees_mono sees_throwIf fun _ _ _ ⟨htr, hne⟩ => ?_
    exact ⟨(not_not.mp hne).symm, htr ▸ hF⟩
  unfold ApiKey.validateSecret
  rcases key.expires with - | exp
  · refine sees_bind (F := fun _ _ => True) (sees_ret trivial) fun _ _ _ _ => ?_
    exact hrest fun exp he => by cases he
  · refine sees_bind (sees_unixTimestamp (hG.now tr)) fun now tr₁ _ ⟨ms, htr₁, hms⟩ => ?_
    refine sees_bind sees_throwIf fun _ tr₂ hsub ⟨_, hexp⟩ => hrest fun exp' he => ?_
    cases he
    refine ⟨ms, hsub _ (by rw [htr₁]; exact List.mem_cons_self), ?_⟩
    rw [← hms]
    exact not_lt.mp hexp

theorem sees_validated {token : String} : Sees Op.Possible G
    (ApiKeyEntity.apiKeyFromTokenValidated data token)
    (fun key tr' => KeyValidated data token key tr' ∧
      ∀ exp, key.expires = some exp → ∃ ms : Int, ⟨.now, ms⟩ ∈ tr' ∧ ms / 1000 ≤ exp) tr := by
  refine sees_bind sees_okOr fun ⟨name, secret⟩ tr₁ _ ⟨htr, hsplit⟩ => ?_
  have hread : Sees Op.Possible G
      (cached .c12hr (ApiKeyEntity.cacheIdx name) CacheVal.apiKey? .apiKey do
        let entity ← ApiKeyEntity.find name
        answer (entity.intoApiKey data))
      (fun key tr' =>
        ⟨.cacheGet .c12hr (ApiKeyEntity.cacheIdx name), .ok (some (.apiKey key))⟩ ∈ tr' ∨
        ∃ r, ReadRow name r tr' ∧ r.intoApiKey data = .ok key) tr₁ := by
    have hload : ∀ tr', Sees Op.Possible G
        (do let entity ← ApiKeyEntity.find name; answer (entity.intoApiKey data))
        (fun key tr'' => ∃ r, ReadRow name r tr'' ∧ r.intoApiKey data = .ok key) tr' := by
      intro tr'
      refine sees_bind (sees_findKey hG) fun r tr₂ _ hr => ?_
      exact sees_mono sees_answer fun key tr₃ _ ⟨htr₃, hkey⟩ => ⟨r, htr₃ ▸ hr, hkey⟩
    refine sees_mono (sees_cached (fun x => hG.get _ _ x) (fun tr' _ => hload tr') ?_)
      fun key tr₂ _ h => ?_
    · rintro tr' key x ⟨r, hr, hkey⟩
      exact hG.fill _ _ r _ x hr hkey
    · rcases h with ⟨v, htr₂, hv⟩ | ⟨tr₃, ⟨r, hr, hkey⟩, htr₂⟩
      · rw [CacheVal.apiKey?_eq_some] at hv
        exact .inl (by rw [htr₂, hv]; exact List.mem_cons_self)
      · exact .inr ⟨r, hr.mono (by rw [htr₂]; exact fun v hv => List.mem_cons_of_mem _ hv), hkey⟩
  refine sees_bind hread fun key tr₂ _ hkey => ?_
  refine sees_bind (sees_validateSecret hG) fun _ tr₃ hsub ⟨hsecret, hexp⟩ => sees_ret ?_
  refine ⟨⟨name, secret, hsplit, hsecret, ?_⟩, hexp⟩
  rcases hkey with hhit | ⟨r, hr, hinto⟩
  · exact .inl (hsub _ hhit)
  · exact .inr ⟨r, hr.mono hsub, hinto⟩

end Validation

theorem sees_keyReq (q : KeyReq) :
    Sees Op.Possible (KeyStep data q) (q.prog data) (KeyEnd data q) [] := by
  cases q with
  | create name expires access =>
      refine sees_bind (F := fun _ _ => True) ?_ fun _ _ _ _ => sees_ret trivial
      refine sees_bind (sees_unixTimestamp fun ms => .aside trivial) fun created tr₁ _ _ => ?_
      refine sees_bind (sees_getRand fun s => .aside trivial) fun plain tr₂ _ htr₂ => ?_
      refine sees_bind sees_answer fun secret tr₃ hsub₃ ⟨_, hs⟩ => ?_
      refine sees_bind sees_answer fun accessEnc tr₄ hsub₄ ⟨_, ha⟩ => ?_
      refine sees_bind (sees_execute fun x => .write (.create ?_ hs ha)) fun _ _ _ _ =>
        sees_ret trivial
      exact hsub₄ _ (hsub₃ _ (by rw [htr₂]; exact List.mem_cons_self))
  | update name expires access =>
      refine sees_bind (F := fun _ tr' => Finished name tr') ?_ fun _ _ _ h => ?_
      · refine sees_bind (sees_findKey KeyStep.allows) fun r tr₁ _ hr => ?_
        refine sees_bind sees_answer fun key tr₂ hsub₂ ⟨_, hkey⟩ => ?_
        refine sees_bind sees_answer fun secret tr₃ hsub₃ ⟨_, hs⟩ => ?_
        refine sees_bind sees_answer fun accessEnc tr₄ hsub₄ ⟨_, ha⟩ => ?_
        have hread := hr.mono fun v hv => hsub₄ v (hsub₃ v (hsub₂ v hv))
        refine sees_bind (sees_execute fun x => .write (.update hread hkey hs ha)) fun _ tr₅ _ h₅ => ?_
        exact sees_mono (sees_cacheDel fun x => .aside trivial) fun _ tr₆ _ h₆ =>
          ⟨_, _, h₆.trans (congrArg _ h₅)⟩
      · exact sees_ret h
  | generateSecret name =>
      refine sees_bind (F := fun _ tr' => Finished name tr') ?_ fun _ _ _ h => sees_ret h
      refine sees_bind (sees_findKey KeyStep.allows) fun r tr₁ _ hr => ?_
      refine sees_bind sees_answer fun key tr₂ hsub₂ ⟨_, hkey⟩ => ?_
      refine sees_bind (sees_getRand fun s => .aside trivial) fun plain tr₃ hsub₃ htr₃ => ?_
      refine sees_bind sees_answer fun secret tr₄ hsub₄ ⟨_, hs⟩ => ?_
      refine sees_bind sees_answer fun access tr₅ hsub₅ ⟨_, ha⟩ => ?_
      have hread := hr.mono fun v hv => hsub₅ v (hsub₄ v (hsub₃ v (hsub₂ v hv)))
      have hdraw : (⟨.getRand 64, plain⟩ : Seen Op Op.Res) ∈ tr₅ :=
        hsub₅ _ (hsub₄ _ (by rw [htr₃]; exact List.mem_cons_self))
      refine sees_bind (sees_execute fun x => .write (.generateSecret hread hkey hdraw hs ha))
        fun _ tr₆ _ h₆ => ?_
      refine sees_bind (sees_cacheDel fun x => .aside trivial) fun _ tr₇ _ h₇ => ?_
      exact sees_ret ⟨_, _, h₇.trans (congrArg _ h₆)⟩
  | delete name =>
      refine sees_bind (F := fun _ tr' => Finished name tr') ?_ fun _ _ _ h => sees_ret h
      refine sees_bind (sees_execute fun x => .write .delete) fun _ tr₁ _ h₁ => ?_
      exact sees_mono (sees_cacheDel fun x => .aside trivial) fun _ tr₂ _ h₂ =>
        ⟨_, _, h₂.trans (congrArg _ h₁)⟩
  | validate token =>
      refine sees_bind (sees_validated KeyStep.allows) fun key tr₁ _ h => sees_ret ?_
      intro key' he
      cases he
      exact h.1
  | other p hp =>
      refine sees_bind (F := fun _ _ => True) ?_ fun _ _ _ _ => sees_ret rfl
      exact sees_of_within hp fun o ho tr x _ => .other rfl ho

end Steps

/-! ### What a write leaves -/

section Writes

variable {data : AppState} {q : KeyReq} {tr : List (Seen Op Op.Res)}
  {r : ApiKeyEntity} {k : ApiKey}

/-- The request stores the secret that it has drawn. -/
def IssuedNow (data : AppState) (q : KeyReq) (tr : List (Seen Op Op.Res)) (name : String)
    (secret : Bytes) : Prop :=
  ∃ plain, (q = .generateSecret name ∨ ∃ expires access, q = .create name expires access) ∧
    (⟨.getRand 64, plain⟩ : Seen Op Op.Res) ∈ tr ∧ secret = data.sha256 (Text.asBytes plain)

/-- The request stores this expiry and these rights. -/
def GrantedNow (q : KeyReq) (name : String) (expires : Option Int) (access : List ApiKeyAccess) :
    Prop := q = .update name expires access ∨ q = .create name expires access

/-- Where a row comes from after a write of `q`: from a row of that name, or from the request. -/
structure Renewed (data : AppState) (q : KeyReq) (tr : List (Seen Op Op.Res))
    (rows : List ApiKeyEntity) (name : String) (key : ApiKey) : Prop where
  secret : (¬ q.Rekeys name ∧ ∃ r ∈ rows, r.name = name ∧
      ∃ k, r.intoApiKey data = .ok k ∧ key.secret = k.secret) ∨ IssuedNow data q tr name key.secret
  rights : (¬ q.Regrants name ∧ ∃ r ∈ rows, r.name = name ∧
      ∃ k, r.intoApiKey data = .ok k ∧ key.expires = k.expires ∧ key.access = k.access) ∨
    GrantedNow q name key.expires key.access

theorem intoApiKey_ok (h : r.intoApiKey data = .ok k) :
    k.expires = r.expires ∧ data.decrypt r.secret = .ok k.secret ∧
      ∃ a, data.decrypt r.access = .ok a ∧ data.deserializeAccess a = .ok k.access := by
  unfold ApiKeyEntity.intoApiKey at h
  rcases hs : data.decrypt r.secret with e | secret
  · rw [hs] at h
    cases h
  · rcases ha : data.decrypt r.access with e | a
    · rw [hs, ha] at h
      cases h
    · rcases hd : data.deserializeAccess a with e | access
      · rw [hs, ha] at h
        simp only [Bind.bind, Except.bind, hd] at h
        cases h
      · rw [hs, ha] at h
        simp only [Bind.bind, Except.bind, hd] at h
        cases h
        exact ⟨rfl, rfl, a, rfl, hd⟩

theorem intoApiKey_stored (hdata : Restores data) {secret : Bytes}
    {access : List ApiKeyAccess} (hs : data.encrypt secret = .ok r.secret)
    (ha : data.encrypt (data.serializeAccess access) = .ok r.access)
    (h : r.intoApiKey data = .ok k) :
    k.secret = secret ∧ k.access = access ∧ k.expires = r.expires := by
  obtain ⟨hexp, hsec, a, hacc, hdes⟩ := intoApiKey_ok h
  rw [hdata.decrypt _ _ hs] at hsec
  rw [hdata.decrypt _ _ ha] at hacc
  rw [← Except.ok.inj hacc, hdata.access] at hdes
  exact ⟨(Except.ok.inj hsec).symm, (Except.ok.inj hdes).symm, hexp⟩

theorem Renewed.kept {rows : List ApiKeyEntity} (hr : r ∈ rows) (hk : r.intoApiKey data = .ok k)
    (h₁ : ¬ q.Rekeys r.name) (h₂ : ¬ q.Regrants r.name) :
    Renewed data q tr rows r.name k where
  secret := .inl ⟨h₁, r, hr, rfl, k, hk, rfl⟩
  rights := .inl ⟨h₂, r, hr, rfl, k, hk, rfl, rfl⟩

theorem rows_of_write (hdata : Restores data) {ss : List DbWrite} {db db' : Db}
    (h : KeyWrite data tr q ss) (hdb : Commits ss db db')
    (hnames : UniqueKey ApiKeyEntity.name (db .apiKeys))
    (hread : (∃ name, q = .generateSecret name ∨ ∃ expires access, q = .update name expires access) →
      ∀ p r rows, (⟨.select .apiKeys p, .ok (r :: rows)⟩ : Seen Op Op.Res) ∈ tr → r ∈ db .apiKeys) :
    UniqueKey ApiKeyEntity.name (db' .apiKeys) ∧ ∀ r' ∈ db' .apiKeys, ∀ k',
      r'.intoApiKey data = .ok k' → Renewed data q tr (db .apiKeys) r'.name k' := by
  have happly := hdb.applied
  cases h with
  | @create name expires access created plain secret accessEnc hdraw hs ha =>
      simp only [applyAll, DbWrite.apply] at happly
      split at happly
      · cases happly
      · next hnew =>
          cases happly
          rw [Function.update_self]
          refine ⟨hnames.append fun r hr he => hnew ?_, fun r' hr' k' hk' => ?_⟩
          · refine List.any_eq_true.mpr ⟨r, hr, ?_⟩
            simpa [conflicts, sameKey] using he.symm
          · rcases List.mem_append.mp hr' with hr' | hr'
            · refine .kept hr' hk' ?_ ?_ <;> simp [KeyReq.Rekeys, KeyReq.Regrants]
            · obtain rfl := List.mem_singleton.mp hr'
              obtain ⟨hsec, hacc, hexp⟩ := intoApiKey_stored hdata hs ha hk'
              refine ⟨.inr ⟨plain, .inr ⟨expires, access, rfl⟩, hdraw, hsec⟩, .inr (.inr ?_)⟩
              rw [hexp, hacc]
  | @update name expires access r key secret accessEnc hr hkey hs ha =>
      cases happly
      rw [Function.update_self]
      refine ⟨hnames.map fun k => by split <;> rfl, fun r' hr' k' hk' => ?_⟩
      obtain ⟨r₀, hr₀, rfl⟩ := List.mem_map.mp hr'
      by_cases hn : r₀.name = name
      · rw [if_pos (beq_iff_eq.mpr hn)] at hk' ⊢
        obtain ⟨hsec, hacc, hexp⟩ := intoApiKey_stored hdata hs ha hk'
        obtain ⟨p, rows, hmem, hname⟩ := hr
        have hrow : r ∈ db .apiKeys := hread ⟨name, .inr ⟨expires, access, rfl⟩⟩ p r rows hmem
        refine ⟨.inl ⟨?_, r, hrow, hname.trans hn.symm, key, hkey, hsec⟩, .inr (.inl ?_)⟩
        · simp [KeyReq.Rekeys]
        · rw [hacc, hexp, hn]
      · rw [if_neg (by simpa using hn)] at hk' ⊢
        refine .kept hr₀ hk' ?_ ?_
        · simp [KeyReq.Rekeys]
        · rintro (⟨_, _, he⟩ | he)
          · cases he
            exact hn rfl
          · cases he
  | @generateSecret name r key plain secret access hr hkey hdraw hs ha =>
      cases happly
      rw [Function.update_self]
      refine ⟨hnames.map fun k => by split <;> rfl, fun r' hr' k' hk' => ?_⟩
      obtain ⟨r₀, hr₀, rfl⟩ := List.mem_map.mp hr'
      by_cases hn : r₀.name = name
      · rw [if_pos (beq_iff_eq.mpr hn)] at hk' ⊢
        obtain ⟨hsec, hacc, hexp⟩ := intoApiKey_stored hdata hs ha hk'
        obtain ⟨p, rows, hmem, hname⟩ := hr
        -- the row that is written is the one that has been read
        have hrow : r ∈ db .apiKeys := hread ⟨name, .inl rfl⟩ p r rows hmem
        obtain rfl : r₀ = r := hnames.inj hr₀ hrow (hn.trans hname.symm)
        refine ⟨.inr ⟨plain, .inl (by rw [← hn]), hdraw, hsec⟩, .inl ⟨?_, r₀, hrow, rfl, key, hkey,
          ?_, hacc⟩⟩
        · simp [KeyReq.Regrants]
        · rw [hexp, (intoApiKey_ok hkey).1]
      · rw [if_neg (by simpa using hn)] at hk' ⊢
        refine .kept hr₀ hk' ?_ ?_
        · rintro (he | he)
          · cases he
            exact hn rfl
          · cases he
        · simp [KeyReq.Regrants]
  | @delete name =>
      cases happly
      rw [Function.update_self]
      refine ⟨hnames.sublist List.filter_sublist, fun r' hr' k' hk' => ?_⟩
      obtain ⟨hr₀, hn⟩ := List.mem_filter.mp hr'
      have hne : r'.name ≠ name := by simpa using hn
      refine .kept hr₀ hk' ?_ ?_
      · rintro (he | he)
        · cases he
        · cases he
          exact hne rfl
      · rintro (⟨_, _, he⟩ | he)
        · cases he
        · cases he
          exact hne rfl

end Writes

/-! ### The invariant -/

section Invariant

variable {data : AppState} {w w' : World} {l m : KeyLog} {e : KeyEvent} {t : ℕ} {q : KeyReq}
  {name : String} {key : ApiKey} {counts : ℕ → KeyLog → Prop}
  {o : Op}
  {x : o.Res}

/-- The keys in the table, the ones that have been read, and the cached ones. -/
structure KeyInv (data : AppState) (w : World) (l : KeyLog) : Prop where
  once : ∀ t q q', .start t q ∈ l → .start t q' ∈ l → q = q'
  names : UniqueKey ApiKeyEntity.name (w.db .apiKeys)
  rows : ∀ r ∈ w.db .apiKeys, ∀ key, r.intoApiKey data = .ok key →
    Since data (fun _ _ => True) r.name key l
  reads : Log.Always (fun e l => ∀ t p r rows, e = .op t (.select .apiKeys p) (.ok (r :: rows)) →
    ∀ key, r.intoApiKey data = .ok key → Since data (fun _ _ => True) r.name key l) l
  cache : ∀ name key, w.cache .c12hr (ApiKeyEntity.cacheIdx name) = some (.apiKey key) →
    Since data (Evicted name) name key l

theorem Sourced.mono {m' l' : KeyLog} (h : Sourced data name key q m l) (hm : ∀ e ∈ m, e ∈ m')
    (hl : ∀ e ∈ l, e ∈ l') : Sourced data name key q m' l' where
  secret hq := by
    obtain ⟨t, ⟨ss, x, hw⟩, q', plain, hs, hq', hd, he⟩ := h.secret hq
    exact ⟨t, ⟨ss, x, hm _ hw⟩, q', plain, hl _ hs, hq', hl _ hd, he⟩
  rights hq := by
    obtain ⟨t, ⟨ss, x, hw⟩, hg⟩ := h.rights hq
    exact ⟨t, ⟨ss, x, hm _ hw⟩, hg.imp (hl _) (hl _)⟩

theorem Since.cons (h : Since data counts name key l)
    (hnew : ∀ t ss q, e = .op t (.execute ss) (.ok ()) → .start t q ∈ l →
      ¬ q.Rekeys name ∧ ¬ q.Regrants name)
    (hc : ∀ t m, counts t (e :: m) → counts t m) : Since data counts name key (e :: l) := by
  intro l₂ t ss l₁ q hl hq hcount
  rcases l₂ with - | ⟨e', l₂⟩
  · obtain ⟨rfl, rfl⟩ := List.cons.inj hl
    obtain ⟨h₁, h₂⟩ := hnew t ss q rfl hq
    exact ⟨fun h => absurd h h₁, fun h => absurd h h₂⟩
  · obtain ⟨rfl, htail⟩ := List.cons.inj hl
    exact (h l₂ t ss l₁ q htail hq (hc t l₂ hcount)).mono
      (fun _ h => List.mem_cons_of_mem _ h) fun _ h => List.mem_cons_of_mem _ h

theorem Since.write {ss : List DbWrite} {x : Except ErrorResponse Unit}
    (hI : KeyInv data w l) (hq : .start t q ∈ l)
    (h : Renewed data q (seenBy t l) (w.db .apiKeys) name key) :
    Since data (fun _ _ => True) name key (.op t (.execute ss) x :: l) := by
  have hissued : IssuedNow data q (seenBy t l) name key.secret →
      IssuedBy data name key.secret t (.op t (.execute ss) x :: l) := by
    rintro ⟨plain, hreq, hdraw, he⟩
    exact ⟨q, plain, List.mem_cons_of_mem _ hq, hreq,
      List.mem_cons_of_mem _ (mem_of_seenBy hdraw), he⟩
  have hgranted : GrantedNow q name key.expires key.access →
      GrantedBy name key.expires key.access t (.op t (.execute ss) x :: l) := by
    rintro (rfl | rfl)
    · exact .inl (List.mem_cons_of_mem _ hq)
    · exact .inr (List.mem_cons_of_mem _ hq)
  intro l₂ t' ss' l₁ q' hl hq' _
  rcases l₂ with - | ⟨e', l₂⟩
  · obtain ⟨he, rfl⟩ := List.cons.inj hl
    cases he
    obtain rfl := hI.once _ _ _ hq' hq
    constructor
    · intro hre
      refine ⟨t, ⟨_, _, List.mem_singleton_self _⟩, hissued ?_⟩
      exact h.secret.resolve_left fun h => h.1 hre
    · intro hre
      refine ⟨t, ⟨_, _, List.mem_singleton_self _⟩, hgranted ?_⟩
      exact h.rights.resolve_left fun h => h.1 hre
  · obtain ⟨rfl, htail⟩ := List.cons.inj hl
    have hwrote : Wrote t (.op t (.execute ss) x :: l₂ ++ [.op t' (.execute ss') (.ok ())]) :=
      ⟨ss, x, by simp⟩
    have hold : ∀ r ∈ w.db .apiKeys, ∀ k, r.intoApiKey data = .ok k → Sourced data r.name k q'
        (.op t (.execute ss) x :: l₂ ++ [.op t' (.execute ss') (.ok ())])
        (.op t (.execute ss) x :: l) := fun r hr k hk =>
      (hI.rows r hr k hk l₂ t' ss' l₁ q' htail hq' trivial).mono
        (fun _ h => List.mem_cons_of_mem _ h) fun _ h => List.mem_cons_of_mem _ h
    constructor
    · intro hre
      rcases h.secret with ⟨-, r, hr, rfl, k, hk, hs⟩ | hnow
      · rw [hs]
        exact (hold r hr k hk).secret hre
      · exact ⟨t, hwrote, hissued hnow⟩
    · intro hre
      rcases h.rights with ⟨-, r, hr, rfl, k, hk, hexp, hacc⟩ | hnow
      · rw [hexp, hacc]
        exact (hold r hr k hk).rights hre
      · exact ⟨t, hwrote, hgranted hnow⟩

theorem KeyInv.event (hI : KeyInv data w l) (he : ∀ t o x, e ≠ .op t o x)
    (honce : ∀ t q q', .start t q ∈ e :: l → .start t q' ∈ e :: l → q = q') :
    KeyInv data w (e :: l) where
  once := honce
  names := hI.names
  rows r hr key hkey := (hI.rows r hr key hkey).cons (fun _ _ _ h => absurd h (he _ _ _))
    fun _ _ _ => trivial
  reads := ⟨fun _ _ _ _ h => absurd h (he _ _ _), hI.reads⟩
  cache name key hk := by
    refine (hI.cache name key hk).cons (fun _ _ _ h => absurd h (he _ _ _)) fun t m hev => ?_
    exact (List.mem_cons.mp hev).resolve_left fun h => he _ _ _ h.symm

theorem once_op (hI : KeyInv data w l) :
    ∀ t' q q', .start t' q ∈ (.op t o x :: l : KeyLog) → .start t' q' ∈ (.op t o x :: l : KeyLog) →
      q = q' := by
  intro t' q q' h h'
  exact hI.once t' q q' ((List.mem_cons.mp h).resolve_left (by simp))
    ((List.mem_cons.mp h').resolve_left (by simp))

theorem ApiKeyEntity.cacheIdx_inj {a b : String} : cacheIdx a = cacheIdx b ↔ a = b :=
  String.append_right_inj _

theorem sem_apiKeys (h : sem o w x w') (ho : ∀ ss, o = .execute ss → ∀ s ∈ ss, s.table ≠ .apiKeys) :
    w'.db .apiKeys = w.db .apiKeys := by
  apply sem_table h
  intro hmem
  cases o with
  | execute ss =>
      obtain ⟨s, hs, he⟩ := List.mem_map.mp hmem
      exact ho ss rfl s hs he
  | _ => cases hmem

theorem KeyInv.reads_op (hI : KeyInv data w l) (hx : sem o w x w') :
    Log.Always (fun e l => ∀ t p r rows, e = .op t (.select .apiKeys p) (.ok (r :: rows)) →
      ∀ key, r.intoApiKey data = .ok key → Since data (fun _ _ => True) r.name key l)
      (.op t o x :: l) := by
  refine ⟨?_, hI.reads⟩
  rintro t' p r rows he key hkey
  cases he
  rcases (sem_select.mp hx).2 with hrows | ⟨e, hrows⟩
  · have hr : r ∈ (w.db .apiKeys).filter p := by
      rw [← Except.ok.inj hrows]
      exact List.mem_cons_self
    exact hI.rows r (List.mem_of_mem_filter hr) key hkey
  · cases hrows

/-- A key stays cached through an operation of a request that ends nothing in it. -/
theorem KeyInv.cache_old (hI : KeyInv data w l) (hx : sem o w x w')
    (hold : w.cache .c12hr (ApiKeyEntity.cacheIdx name) = some (.apiKey key))
    (hnow : w'.cache .c12hr (ApiKeyEntity.cacheIdx name) = some (.apiKey key)) :
    Since data (Evicted name) name key (.op t o x :: l) := by
  intro l₂ t' ss l₁ q' hl hq' hev
  rcases l₂ with - | ⟨e, l₂⟩
  · cases hev
  · obtain ⟨rfl, htail⟩ := List.cons.inj hl
    have hev' : Evicted name t' l₂ := by
      refine (List.mem_cons.mp hev).resolve_left fun he => ?_
      -- the eviction would have taken the key away
      cases he
      rcases sem_cacheDel.mp hx with ⟨-, rfl⟩ | ⟨e, he, -⟩
      · simp [World.del_cache] at hnow
      · cases he
    exact (hI.cache name key hold l₂ t' ss l₁ q' htail hq' hev').mono
      (fun _ h => List.mem_cons_of_mem _ h) fun _ h => List.mem_cons_of_mem _ h

/-- A key that is cached now has been read from the table, before no write that has been
evicted since. -/
theorem KeyInv.cache_new {r : ApiKeyEntity} {x : Except ErrorResponse Unit}
    (hI : KeyInv data w l) (hread : ReadRow name r (seenBy t l)) (hkey : r.intoApiKey data = .ok key)
    (hC : Undisturbed w l (.op t (.cachePut .c12hr (ApiKeyEntity.cacheIdx name) (.apiKey key)) x)) :
    Since data (Evicted name) name key
      (.op t (.cachePut .c12hr (ApiKeyEntity.cacheIdx name) (.apiKey key)) x :: l) := by
  intro l₂ t' ss l₁ q' hl hq' hev
  rcases l₂ with - | ⟨e, l₂⟩
  · cases hev
  · obtain ⟨rfl, htail⟩ := List.cons.inj hl
    have hev' : Evicted name t' l₂ := (List.mem_cons.mp hev).resolve_left (by simp)
    obtain ⟨p, rows, hmem, rfl⟩ := hread
    obtain ⟨a, b, hab⟩ := List.append_of_mem (mem_of_seenBy hmem)
    have hlate := hC.fill t r.name key x rfl l₂ t' ss l₁ htail hev' p (r :: rows)
    rcases Log.split_cases (htail.symm.trans hab) with ⟨he, -⟩ | ⟨-, c, hc⟩ | ⟨c, hc⟩
    · cases he
    · exact absurd (by rw [hc]; simp) hlate
    · have hsince : Since data (fun _ _ => True) r.name key b :=
        hI.reads.of_suffix ⟨a, hab.symm⟩ t p r rows rfl key hkey
      have hsplit : l₂ ++ .op t' (.execute ss) (.ok ()) :: l₁ = (a ++
          .op t (.select .apiKeys p) (.ok (r :: rows)) :: c) ++ .op t' (.execute ss) (.ok ()) :: l₁ := by
        rw [show l₂ ++ .op t' (.execute ss) (.ok ()) :: l₁ = l from htail.symm, hab, hc]
        simp
      have hl₂ := List.append_cancel_right hsplit
      refine (hsince c t' ss l₁ q' hc hq' trivial).mono (fun e he => ?_) fun e he => ?_
      · rcases List.mem_append.mp he with he | he
        · rw [hl₂]
          simp [he]
        · simp [List.mem_singleton.mp he]
      · rw [hab]
        simp [he]

/-- **One operation keeps the invariant.** -/
theorem KeyInv.op (hdata : Restores data) (hI : KeyInv data w l)
    (hq : .start t q ∈ l) (hx : sem o w x w') (hC : Undisturbed w l (.op t o x))
    (hG : KeyStep data q (seenBy t l) ⟨o, x⟩) : KeyInv data w' (.op t o x :: l) := by
  -- the table is the same, and the request ends nothing
  have hquiet : (∀ ss, o = .execute ss → (∀ s ∈ ss, s.table ≠ .apiKeys) ∧
        ∀ name, ¬ q.Rekeys name ∧ ¬ q.Regrants name) →
      (∀ name key, w'.cache .c12hr (ApiKeyEntity.cacheIdx name) = some (.apiKey key) →
        Since data (Evicted name) name key (.op t o x :: l)) → KeyInv data w' (.op t o x :: l) := by
    intro ho hcache
    have hdb := sem_apiKeys hx fun ss he => (ho ss he).1
    refine ⟨once_op hI, ?_, ?_, hI.reads_op hx, hcache⟩
    · rw [hdb]
      exact hI.names
    · intro r hr key hkey
      rw [hdb] at hr
      refine (hI.rows r hr key hkey).cons ?_ fun _ _ _ => trivial
      intro t' ss q' he hq'
      cases he
      obtain rfl := hI.once _ _ _ hq' hq
      exact (ho ss rfl).2 r.name
  -- what is cached has been cached before
  have hkept : (∀ c k key, o ≠ .cachePut c k (.apiKey key)) → ∀ name key,
      w'.cache .c12hr (ApiKeyEntity.cacheIdx name) = some (.apiKey key) →
        Since data (Evicted name) name key (.op t o x :: l) := by
    intro hput name key hnow
    rcases sem_cache hx hnow with hold | he
    · exact hI.cache_old hx hold hnow
    · exact absurd he (hput _ _ _)
  cases hG with
  | aside h =>
      refine hquiet ?_ (hkept fun c k key he => ?_)
      · rintro ss rfl
        exact h.elim
      · subst he
        exact h rfl
  | other hother h =>
      refine hquiet ?_ (hkept fun c k key he => ?_)
      · rintro ss rfl
        exact ⟨h, fun name => by simp [hother, KeyReq.Rekeys, KeyReq.Regrants]⟩
      · subst he
        exact h rfl
  | @fill name r key x hr hkey =>
      refine hquiet (fun ss he => by cases he) fun name' key' hnow => ?_
      rcases sem_cache hx hnow with hold | he
      · exact hI.cache_old hx hold hnow
      · obtain ⟨-, hidx, hval⟩ := Op.cachePut.inj he
        obtain rfl := ApiKeyEntity.cacheIdx_inj.mp hidx
        cases hval
        exact hI.cache_new hr hkey hC
  | @write ss x h =>
      have hcache := hkept fun c k key he => by cases he
      rcases sem_execute.mp hx with ⟨e, rfl, rfl⟩ | ⟨db, hdb, rfl⟩
      · refine ⟨once_op hI, hI.names, fun r hr key hkey => ?_, hI.reads_op hx, hcache⟩
        refine (hI.rows r hr key hkey).cons (fun t' ss' q' he _ => ?_) fun _ _ _ => trivial
        cases he
      · have hren := rows_of_write hdata h hdb hI.names fun hreq p r rows hmem =>
          hC.write t q ss x rfl hq hreq p r rows (mem_of_seenBy hmem)
        refine ⟨once_op hI, hren.1, fun r hr key hkey => ?_, hI.reads_op hx, hcache⟩
        exact .write hI hq (hren.2 r hr key hkey)

end Invariant

/-! ### Runs -/

section Runs

variable {data : AppState} {w₀ : World} {P : KeyPool}
  {t : ℕ} {q : KeyReq} {l₂ l₁ : KeyLog}

theorem KeyInv.init (h : UniqueKey ApiKeyEntity.name (w₀.db .apiKeys)) : KeyInv data w₀ [] where
  once _ _ _ hq := by cases hq
  names := h
  rows _ _ _ _ l₂ t ss l₁ q hl := by simp at hl
  reads := trivial
  cache _ _ _ l₂ t ss l₁ q hl := by simp at hl

/-- How a request has ended, by what it has seen. -/
def KeyEnds (data : AppState) (q : KeyReq) (r : KeyOutcome) (tr : List (Seen Op Op.Res)) : Prop :=
  ∀ v, r = .ok v → KeyEnd data q v tr

theorem keyInv_of_run (hdata : Restores data) (h₀ : UniqueKey ApiKeyEntity.name (w₀.db .apiKeys))
    (h : Run (KeyReq.prog data) sem Undisturbed (init w₀) P) : KeyInv data P.world P.log := by
  refine (Run.inv_of_seen (A := fun _ => Op.Possible) (G := fun q => KeyStep data q)
    (F := KeyEnds data) (I := KeyInv data) ?_ ?_ (.init h₀) ?_ ?_ ?_ h).1
  · exact fun q => sees_keyReq q
  · intro w l t q o x w' _ _ hx _
    exact ⟨w, w', hx⟩
  · intro w l t q hI hfresh _
    refine hI.event (fun _ _ _ he => by cases he) fun t' q₁ q₂ h₁ h₂ => ?_
    rcases List.mem_cons.mp h₁ with he₁ | hold₁
    · rcases List.mem_cons.mp h₂ with he₂ | hold₂
      · cases he₁
        cases he₂
        rfl
      · cases he₁
        exact absurd rfl (hfresh _ hold₂)
    · rcases List.mem_cons.mp h₂ with he₂ | hold₂
      · cases he₂
        exact absurd rfl (hfresh _ hold₁)
      · exact hI.once t' q₁ q₂ hold₁ hold₂
  · intro w l t q o x w' hI hq _ hx hC hG
    exact hI.op hdata hq hx hC hG
  · intro w l t q r hI _ _ _ _
    refine hI.event (fun _ _ _ he => by cases he) fun t' q₁ q₂ h₁ h₂ => ?_
    exact hI.once t' q₁ q₂ ((List.mem_cons.mp h₁).resolve_left (by simp))
      ((List.mem_cons.mp h₂).resolve_left (by simp))

theorem ends_of_run (h : Run (KeyReq.prog data) sem Undisturbed (init w₀) P) :
    Log.Always (fun e l => ∀ t r, e = .done t r → ∃ q, .start t q ∈ l ∧ KeyEnds data q r (seenBy t l))
      P.log := by
  have hpromises := Run.promises (A := fun _ => Op.Possible) (G := fun q => KeyStep data q)
    (F := KeyEnds data) (fun q => sees_keyReq q) (fun w l t q o x w' _ hx _ => ⟨w, w', hx⟩) h
  exact hpromises.mono fun e l he => he.2

/-- A request on a key that has ended well has written and then evicted the key. -/
theorem finished_of_ended {name : String} {l : KeyLog} {v : Option ApiKey}
    (hq : q.Rekeys name ∨ q.Regrants name) (h : KeyEnd data q v (seenBy t l)) :
    ∃ l₃ ss l₂, l = l₃ ++ .op t (.execute ss) (.ok ()) :: l₂ ∧ Evicted name t l₃ := by
  have hfin : Finished name (seenBy t l) := by
    rcases hq with (rfl | rfl) | ⟨_, _, rfl⟩ | rfl <;> exact h
  obtain ⟨ss, tr, htr⟩ := hfin
  have hsplit : seenBy t l = [⟨.cacheDel .c12hr (ApiKeyEntity.cacheIdx name), .ok ()⟩] ++
      ⟨.execute ss, .ok ()⟩ :: tr := htr
  obtain ⟨l₃, l₂, hl, hseen, -⟩ := split_of_seenBy hsplit
  refine ⟨l₃, ss, l₂, hl, ?_⟩
  exact mem_of_seenBy (by rw [hseen]; exact List.mem_singleton_self _)

theorem ended_of_run (h : Run (KeyReq.prog data) sem Undisturbed (init w₀) P) {a : Option ApiKey}
    (hl : P.log = l₂ ++ .done t (.ok a) :: l₁) (hq : .start t q ∈ P.log) :
    KeyEnd data q a (seenBy t l₁) := by
  obtain ⟨q', hq', hend⟩ := (ends_of_run h).of_suffix ⟨l₂, hl.symm⟩ t _ rfl
  obtain rfl : q' = q := h.start_unique (by rw [hl]; simp [hq']) hq
  exact hend a rfl

theorem started_of_run (h : Run (KeyReq.prog data) sem Undisturbed (init w₀) P) {o : Op} {x : o.Res}
    (hl : P.log = l₂ ++ .op t o x :: l₁) (hq : .start t q ∈ P.log) : .start t q ∈ l₁ := by
  obtain ⟨d₂, d₁, hd⟩ := List.append_of_mem hq
  obtain ⟨r, hr⟩ := h.op_after_start hd hl
  rw [hr]
  simp

/-- What a validation has found, in the cache or in the table, was up to date when it was read. -/
theorem found_since (hdata : Restores data) (h₀ : UniqueKey ApiKeyEntity.name (w₀.db .apiKeys))
    (h : Run (KeyReq.prog data) sem Undisturbed (init w₀) P) {name : String} {key : ApiKey}
    (hl : P.log = l₂ ++ l₁)
    (hfound : ⟨.cacheGet .c12hr (ApiKeyEntity.cacheIdx name), .ok (some (.apiKey key))⟩ ∈
        seenBy t l₁ ∨
      ∃ r, ReadRow name r (seenBy t l₁) ∧ r.intoApiKey data = .ok key) :
    ∃ g₂ o x g₁ counts, P.log = g₂ ++ .op t o x :: g₁ ∧ Since data counts name key g₁ ∧
      ∀ t' l, Evicted name t' l → counts t' l := by
  rcases hfound with hhit | ⟨r, ⟨p, rows, hmem, rfl⟩, hkey⟩
  · obtain ⟨g₂, g₁, hg⟩ := List.append_of_mem
      (hl ▸ List.mem_append_right l₂ (mem_of_seenBy hhit))
    have hpast := Run.past (fun P hP => keyInv_of_run hdata h₀ hP) h
    obtain ⟨w, w', hI, -, -, hop⟩ := hpast.of_suffix ⟨g₂, hg.symm⟩
    have hcached : w.cache .c12hr (ApiKeyEntity.cacheIdx name) = some (.apiKey key) := by
      rcases sem_cacheGet.mp (hop t _ _ rfl).1 with ⟨hv, -⟩ | ⟨hv, -⟩ | ⟨e, hv, -⟩
      · exact (Except.ok.inj hv).symm
      · cases hv
      · cases hv
    exact ⟨g₂, _, _, g₁, _, hg, hI.cache name key hcached, fun _ _ he => he⟩
  · obtain ⟨g₂, g₁, hg⟩ := List.append_of_mem
      (hl ▸ List.mem_append_right l₂ (mem_of_seenBy hmem))
    have hreads := (keyInv_of_run hdata h₀ h).reads.of_suffix ⟨g₂, hg.symm⟩ t p r rows rfl key hkey
    exact ⟨g₂, _, _, g₁, _, hg, hreads, fun _ _ _ => trivial⟩

/-- **Retired keys are refused**, in every run in which no row is written back or cached after
it has been replaced. -/
theorem retired_keys_refused (hdata : Restores data)
    (h₀ : UniqueKey ApiKeyEntity.name (w₀.db .apiKeys))
    (h : Run (KeyReq.prog data) sem Undisturbed (init w₀) P) : RetiredRefused data P.log := by
  intro l₃ t token l₂ key hl hdone
  obtain ⟨d₂, d₁, hd⟩ := List.append_of_mem hdone
  obtain ⟨name, secret, hsplit, hsecret, hfound⟩ :=
    ended_of_run h hd (q := .validate token) (by rw [hl]; simp) key rfl
  refine ⟨name, secret, hsplit, hsecret, fun t' q a hq hdone' hre => ?_⟩
  -- the operation on the key has written, and then evicted it, before the validation started
  have hq' : .start t' q ∈ P.log := hl ▸ List.mem_append_right _ (List.mem_cons_of_mem _ hq)
  obtain ⟨c₂, c₁, rfl⟩ := List.append_of_mem hdone'
  have hc : P.log = (l₃ ++ .start t (.validate token) :: c₂) ++ .done t' (.ok a) :: c₁ := by
    rw [hl]
    simp
  obtain ⟨l₅, ss, l₄, rfl, hevicted⟩ := finished_of_ended hre (ended_of_run h hc hq')
  have he : P.log = (l₃ ++ .start t (.validate token) :: c₂ ++ .done t' (.ok a) :: l₅) ++
      .op t' (.execute ss) (.ok ()) :: l₄ := by
    rw [hc]
    simp
  refine ⟨_, ss, l₄, he, ?_⟩
  -- what the validation has found, it has found after that
  have hseen : P.log = (d₂ ++ [.done t (.ok (some key))]) ++ d₁ := by
    rw [hd]
    simp
  obtain ⟨g₂, o, x, g₁, counts, hg, hsince, hcounts⟩ := found_since hdata h₀ h hseen hfound
  obtain ⟨r, hr⟩ := h.op_after_start hl hg
  rw [hr, ← List.cons_append, ← List.append_assoc] at hg
  have hlater : l₃ = g₂ ++ .op t o x :: r := List.append_cancel_right (hl.symm.trans hg)
  have hsourced := hsince (r ++ .start t (.validate token) :: c₂ ++ .done t' (.ok a) :: l₅) t' ss l₄
    q (by rw [hr]; simp) (started_of_run h he hq')
    (hcounts _ _ (List.mem_append_right _ (List.mem_cons_of_mem _ hevicted)))
  refine hsourced.mono (fun e he => ?_) fun e he => ?_
  · rw [hlater]
    simp only [List.append_assoc, List.cons_append, List.mem_append, List.mem_cons] at he ⊢
    exact .inr (.inr he)
  · rw [hr] at he
    rw [hg, List.append_assoc]
    exact List.mem_append_right _ (List.mem_cons_of_mem _ he)

end Runs

/-! ### A key that is deleted while it is validated -/

/-- The table holds one key, without rights and without an expiry. -/
def keyTable : World where
  clock := 0
  issued := []
  db
    | .apiKeys => [{ (default : ApiKeyEntity) with name := "key", secret := Text.asBytes "secret" }]
    | _ => []
  cache _ _ := none

/-- Request 0 has read the row when request 1 deletes it; then it caches the key. -/
def deletedKeyMoves : List (Move KeyReq Choice) :=
  [.start 0 (.validate "key$secret"), .op 0 .ok, .op 0 .ok,
    .start 1 (.delete "key"), .op 1 .ok, .op 1 .ok, .done 1,
    .op 0 .ok, .done 0,
    .start 2 (.validate "key$secret"), .op 2 .ok, .done 2]

/-- The last request has been let in, after request 1 had deleted the key, and no key has been
created or given a new secret. -/
def servesDeleted (P : KeyPool) : Bool :=
  match P.log with
  | .done 2 (.ok (some _)) :: .op _ _ _ :: .start 2 (.validate token) :: l =>
      token == "key$secret" &&
      (match Log.startOf 1 l with
        | some (.delete name) => name == "key"
        | _ => false) &&
      (match Log.doneOf 1 l with
        | some (.ok _) => true
        | _ => false) &&
      l.all fun
        | .start _ (.create _ _ _) => false
        | .start _ (.generateSecret _) => false
        | _ => true
  | _ => false

theorem not_refused_of_servesDeleted {P : KeyPool} (h : servesDeleted P = true) :
    ¬ RetiredRefused sampleState P.log := by
  unfold servesDeleted at h
  split at h
  · next key o t' x token l hlog =>
      simp only [Bool.and_eq_true, beq_iff_eq] at h
      obtain ⟨⟨⟨rfl, hstart⟩, hdone⟩, hall⟩ := h
      intro hrefused
      have hdelete : .start 1 (.delete "key") ∈ l := by
        split at hstart
        · next name he =>
            rw [← beq_iff_eq.mp hstart]
            exact Log.mem_of_startOf he
        · cases hstart
      obtain ⟨a, ha⟩ : ∃ a, .done 1 (.ok a) ∈ l := by
        split at hdone
        · next a he => exact ⟨a, Log.mem_of_doneOf he⟩
        · cases hdone
      obtain ⟨name, secret, hsplit, -, hrest⟩ := hrefused [_, _] 2 "key$secret" l key hlog
        (by rw [hlog]; exact List.mem_cons_self)
      have hname : name = "key" := by
        have h₁ : (Text.splitOnce "key$secret" "$").map Prod.fst = some "key" := by decide
        rw [hsplit] at h₁
        exact Option.some.inj h₁
      obtain ⟨l₅, ss, l₄, -, hsourced⟩ := hrest 1 (.delete "key") a hdelete ha
        (.inl (.inr (by rw [hname])))
      obtain ⟨t, -, q, plain, hq, hreq, -⟩ := hsourced.secret (.inr (by rw [hname]))
      rw [hlog] at hq
      have hq' : .start t q ∈ l := by
        simp only [List.mem_cons, reduceCtorEq, false_or] at hq
        rcases hq with he | hq
        · cases he
          rcases hreq with he | ⟨_, _, he⟩ <;> cases he
        · exact hq
      have hnone := List.all_eq_true.mp hall _ hq'
      rcases hreq with rfl | ⟨_, _, rfl⟩ <;> simp at hnone
  · cases h

theorem deleted_key_accepted : ∃ P, Run (KeyReq.prog sampleState) sem (fun _ _ _ => True)
    (init keyTable) P ∧ ¬ RetiredRefused sampleState P.log := by
  obtain ⟨P, hrun, hP⟩ := exists_run_of_moves (C := fun _ _ _ => True) (KeyReq.prog sampleState)
    Op.run (fun _ _ _ => true) keyTable deletedKeyMoves servesDeleted (by decide +kernel)
    (fun _ _ _ _ => trivial)
  exact ⟨P, hrun, not_refused_of_servesDeleted hP⟩

/-! ### A key that gets a new secret -/

def accessByte : AccessGroup → UInt8
  | .blacklist => 16
  | .clients => 17
  | .events => 18
  | .generic => 19
  | .groups => 20
  | .roles => 21
  | .secrets => 22
  | .sessions => 23
  | .scopes => 24
  | .userAttributes => 25
  | .users => 26

def rightsByte : AccessRights → UInt8
  | .read => 0
  | .create => 1
  | .update => 2
  | .delete => 3

def allGroups : List AccessGroup :=
  [.blacklist, .clients, .events, .generic, .groups, .roles, .secrets, .sessions, .scopes,
    .userAttributes, .users]

def allRights : List AccessRights := [.read, .create, .update, .delete]

def accessBytes (a : ApiKeyAccess) : Bytes := accessByte a.group :: a.accessRights.map rightsByte

/-- One byte before the access rights that have been read: a group, or a right of the group
before. -/
def readAccess (b : UInt8) (acc : List ApiKeyAccess × List AccessRights) :
    List ApiKeyAccess × List AccessRights :=
  match allGroups.find? fun g => accessByte g == b with
  | some g => (⟨g, acc.2⟩ :: acc.1, [])
  | none =>
      match allRights.find? fun r => rightsByte r == b with
      | some r => (acc.1, r :: acc.2)
      | none => acc

theorem readAccess_group (g : AccessGroup) (acc : List ApiKeyAccess × List AccessRights) :
    readAccess (accessByte g) acc = (⟨g, acc.2⟩ :: acc.1, []) := by
  cases g <;> rfl

theorem readAccess_rights (r : AccessRights) (acc : List ApiKeyAccess × List AccessRights) :
    readAccess (rightsByte r) acc = (acc.1, r :: acc.2) := by
  cases r <;> rfl

theorem readAccess_all (l : List ApiKeyAccess) :
    (l.flatMap accessBytes).foldr readAccess ([], []) = (l, []) := by
  induction l with
  | nil => rfl
  | cons a l ih =>
      have hrights : ∀ rs : List AccessRights,
          (rs.map rightsByte).foldr readAccess (l, []) = (l, rs) := by
        intro rs
        induction rs with
        | nil => rfl
        | cons r rs ih => rw [List.map_cons, List.foldr_cons, ih, readAccess_rights]
      rw [List.flatMap_cons, List.foldr_append, ih]
      show readAccess (accessByte a.group) ((a.accessRights.map rightsByte).foldr readAccess (l, [])) = _
      rw [hrights, readAccess_group]

/-- Access rights are stored with their number in front. -/
def keyState : AppState :=
  { sampleState with
    serializeAccess := fun l => Bincode.leBytes 8 l.length ++ l.flatMap accessBytes
    deserializeAccess := fun b => .ok ((b.drop 8).foldr readAccess ([], [])).1 }

theorem restores_keyState : Restores keyState where
  decrypt b c h := h.symm
  access a := by
    show Except.ok (((Bincode.leBytes 8 a.length ++ a.flatMap accessBytes).drop 8).foldr readAccess
      ([], [])).1 = _
    rw [List.drop_left' (Bincode.length_leBytes 8 a.length), readAccess_all]

/-- The table with the same key, without rights. -/
def readableTable : World where
  clock := 0
  issued := []
  db
    | .apiKeys => [{ (default : ApiKeyEntity) with
        name := "key", secret := Text.asBytes "secret", access := keyState.serializeAccess [] }]
    | _ => []
  cache _ _ := none

def freshSecret : String := String.ofList (List.replicate 64 'n')

/-- The key is validated, gets a new secret, and is validated with that. -/
def rotatedKeyMoves : List (Move KeyReq Choice) :=
  [.start 0 (.validate "key$secret"), .op 0 .ok, .op 0 .ok, .op 0 .ok, .done 0,
    .start 1 (.generateSecret "key"), .op 1 .ok, .op 1 (.rand freshSecret), .op 1 .ok, .op 1 .ok,
    .done 1,
    .start 2 (.validate ("key$" ++ freshSecret)), .op 2 .ok, .op 2 .ok, .op 2 .ok, .done 2]

/-- Request `t` has read no API key. -/
def readNone (t : ℕ) : KeyEvent → Bool
  | .op t' (.select .apiKeys _) (.ok _) => t' != t
  | _ => true

/-- Before the last eviction. -/
def readNoneBefore (t : ℕ) : KeyLog → Bool
  | [] => true
  | .op _ (.cacheDel _ _) _ :: l => l.all (readNone t)
  | _ :: l => readNoneBefore t l

/-- An executable condition on each step. -/
def undisturbed (w : World) (l : KeyLog) : KeyEvent → Bool
  | .op t (.execute _) _ => l.all fun
      | .op t' (.select .apiKeys _) (.ok (r :: _)) => t' != t || (w.db .apiKeys).contains r
      | _ => true
  | .op t (.cachePut _ _ _) _ => readNoneBefore t l
  | _ => true

theorem readNone_of_before {t : ℕ} {l₂ l₁ : KeyLog} {t' : ℕ} {c : CacheName} {k : String}
    {x : Except ErrorResponse Unit} (h : readNoneBefore t (l₂ ++ l₁) = true)
    (hdel : .op t' (.cacheDel c k) x ∈ l₂) : ∀ e ∈ l₁, readNone t e = true := by
  induction l₂ with
  | nil => cases hdel
  | cons e l₂ ih =>
      intro e' he'
      unfold readNoneBefore at h
      split at h
      · rename_i heq
        cases heq
      · rename_i heq
        obtain ⟨-, rfl⟩ := List.cons.inj heq
        exact List.all_eq_true.mp h e' (List.mem_append_right _ he')
      · rename_i hnot heq
        obtain ⟨rfl, rfl⟩ := List.cons.inj heq
        rcases List.mem_cons.mp hdel with he | hdel
        · exact absurd he.symm (hnot _ _ _ _)
        · exact ih h hdel e' he'

theorem undisturbed_of_check {w : World} {l : KeyLog} {e : KeyEvent}
    (h : undisturbed w l e = true) : Undisturbed w l e := by
  constructor
  · rintro t q ss x rfl - - p r rows hmem
    have hrow := List.all_eq_true.mp h _ hmem
    simpa using hrow
  · rintro t name key x rfl l₂ t' ss l₁ rfl hev p rows hmem
    have hnone := readNone_of_before h hev _ (List.mem_cons_of_mem _ hmem)
    simp [readNone] at hnone

def letIn (P : KeyPool) : Bool :=
  match Log.doneOf 2 P.log with
  | some (.ok (some _)) => true
  | _ => false

theorem retired_keys_refused_sample : ∃ P, Run (KeyReq.prog keyState) sem Undisturbed
    (init readableTable) P ∧ (∃ key, .done 2 (.ok (some key)) ∈ P.log) ∧
    RetiredRefused keyState P.log := by
  obtain ⟨P, hrun, hP⟩ := exists_run_of_moves (C := Undisturbed) (KeyReq.prog keyState)
    Op.run undisturbed readableTable rotatedKeyMoves letIn (by decide +kernel)
    (fun _ _ _ h => undisturbed_of_check h)
  have hnames : UniqueKey ApiKeyEntity.name (readableTable.db .apiKeys) := List.nodup_singleton _
  refine ⟨P, hrun, ?_, retired_keys_refused restores_keyState hnames hrun⟩
  unfold letIn at hP
  split at hP
  · next key hkey => exact ⟨key, Log.mem_of_doneOf hkey⟩
  · cases hP

end Rauthy

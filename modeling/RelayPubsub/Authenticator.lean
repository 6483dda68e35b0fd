import RelayPubsub.Jwt
import RelayPubsub.Lib.Machine

/-!
# Who the caller is

Authentication in `src/auth.rs`: a bearer token is the static one, or a JWT that verifies
under one of the keys the identity provider publishes. The keys are fetched over the network
and kept for 300 seconds in a cache all calls share. A call that finds no fresh keys waits
for the answer of the provider, and others come in between; so the authenticator is a state
machine (`RelayPubsub.Authenticator.step`), a run of which is any interleaving of calls that
arrive and answers that come in.

Whatever the interleaving, a caller is let in only with the static token, or with a token
that verifies under a key from an answer of the provider that has come in less than 300
seconds before (`RelayPubsub.Authenticator.accepted_verified`).
-/

namespace RelayPubsub

open Lib

structure AuthConfig where
  /-- Shared static bearer token (emulator-compatible). -/
  staticToken : Option Text
  /-- Optional OIDC JWKS URL for bearer JWT validation. -/
  oidcJwksUrl : Option Text
  oidcAudience : Option Text
  oidcIssuer : Option Text
  /-- Empty = all projects allowed when authed. -/
  allowedProjects : List Text
  /-- Map JWT `sub` / `email` claim → project prefix. -/
  identityProjectMap : StrMap Text

def AuthConfig.authRequired (config : AuthConfig) : Bool :=
  config.staticToken.isSome || config.oidcJwksUrl.isSome

structure Jwk where
  kid : Option Text
  kty : Text
  n : Option Text
  e : Option Text
  deriving DecidableEq

structure Jwks where
  keys : List Jwk
  deriving DecidableEq

/-- What the gateway asks of a token. -/
def AuthConfig.validation (config : AuthConfig) (header : JwtHeader) : Validation :=
  let validation : Validation := { alg := header.alg }
  let validation := match config.oidcAudience with
    | some aud => { validation with aud := some aud }
    | none => { validation with validateAud := false }
  match config.oidcIssuer with
  | some iss => { validation with iss := some iss }
  | none => validation

/-- The key with the id in the header, or else the first one. -/
def JwtHeader.jwk (header : JwtHeader) (jwks : Jwks) : Option Jwk :=
  (jwks.keys.find? fun k => header.kid.any fun kid => k.kid == some kid).or jwks.keys.head?

/-- Who the claims are about: `email`, or `sub`. -/
def Claims.subject (claims : Claims) : Text := (claims.email.or claims.sub).getD "oidc"

/-- The allowlist, with the project of the identity. -/
def AuthConfig.projectsOf (config : AuthConfig) (subject : Text) : List Text :=
  match config.identityProjectMap[subject]? with
  | some mapped =>
    if mapped ∈ config.allowedProjects then config.allowedProjects
    else config.allowedProjects ++ [mapped]
  | none => config.allowedProjects

namespace Authenticator

variable (jwt : JsonWebToken) (config : AuthConfig)

/-- The end of `authenticate_jwt`, with the keys at hand. -/
def verify (token : Text) (header : JwtHeader) (jwks : Jwks) (now : Time) :
    Except Text AuthContext :=
  match header.jwk jwks with
  | none => .error "no jwk available"
  | some jwk =>
    if jwk.kty ≠ "RSA".toList then .error "only RSA JWKs are supported"
    else
      match jwk.n, jwk.e with
      | none, _ => .error "jwk missing n"
      | some _, none => .error "jwk missing e"
      | some n, some e =>
        match jwt.fromRsaComponents n e with
        | .error err => .error ("invalid jwk: " ++ err)
        | .ok key =>
          match jwt.decode now token key (config.validation header) with
          | .error err => .error ("jwt validation failed: " ++ err)
          | .ok claims =>
            .ok { subject := claims.subject, allowedProjects := config.projectsOf claims.subject }

/-- How long keys are fresh, in nanoseconds. -/
def maxAge : ℕ := 300 * 1000000000

/-- The keys that have been received last, and when. -/
abbrev Cache : Type := Option (ℕ × Jwks)

/-- The keys in the cache, if they are fresh. -/
def Cache.fresh (cache : Cache) (instant : ℕ) : Option Jwks :=
  match cache with
  | some (received, jwks) => if instant - received < maxAge then some jwks else none
  | none => none

/-- A call that waits for the provider. -/
structure Waiting where
  token : Text
  header : JwtHeader

/-- **What becomes of a call**: it is answered, or waits for the provider. -/
inductive Progress where
  | answered (answer : Except Text AuthContext)
  | fetching (waiting : Waiting)

/-- `authenticate_jwt` as far as it goes without the provider. -/
def authenticateJwt (cache : Cache) (token : Text) (instant : ℕ) (now : Time) : Progress :=
  match jwt.decodeHeader token with
  | .error e => .answered (.error ("invalid jwt header: " ++ e))
  | .ok header =>
    match cache.fresh instant with
    | some jwks => .answered (verify jwt config token header jwks now)
    | none =>
      match config.oidcJwksUrl with
      | none => .answered (.error "oidc jwks url unset")
      | some _ => .fetching { token, header }

def authenticateBearer (cache : Cache) (header : Option Text) (instant : ℕ) (now : Time) :
    Progress :=
  if !config.authRequired then
    .answered (.ok { subject := "anonymous", allowedProjects := config.allowedProjects })
  else
    match header.bind fun h => h.dropPrefix? "Bearer ".toList with
    | none => .answered (.error "missing or invalid bearer token")
    | some raw =>
      if config.staticToken = some raw then
        .answered (.ok { subject := "static-token", allowedProjects := config.allowedProjects })
      else if config.oidcJwksUrl.isSome then
        authenticateJwt jwt config cache raw instant now
      else .answered (.error "missing or invalid bearer token")

/-! ### Interleavings -/

/-- **What happens to the authenticator**: a call of `authenticate_bearer` arrives, or the
provider answers one that waits. An answer that is no set of keys is an error: of the
connection, of the status, or of the body. -/
inductive Event where
  | call (caller : ℕ) (header : Option Text) (instant : ℕ) (now : Time)
  | response (caller : ℕ) (result : Except Text Jwks) (instant : ℕ) (now : Time)

def Event.caller : Event → ℕ
  | .call caller _ _ _ | .response caller _ _ _ => caller

/-- The monotonic clock at the event. -/
def Event.instant : Event → ℕ
  | .call _ _ instant _ | .response _ _ instant _ => instant

def Event.now : Event → Time
  | .call _ _ _ now | .response _ _ _ now => now

/-- The cache and the calls that wait. -/
structure World where
  cache : Cache := none
  waiting : ℕ → Option Waiting := fun _ => none

/-- What becomes of the call an event is about, if there is one that can go on: a caller
makes one call at a time. -/
def progress (w : World) : Event → Option Progress
  | .call caller header instant now =>
    match w.waiting caller with
    | none => some (authenticateBearer jwt config w.cache header instant now)
    | some _ => none
  | .response caller result _ now =>
    (w.waiting caller).map fun waiting =>
      match result with
      | .ok jwks => .answered (verify jwt config waiting.token waiting.header jwks now)
      | .error e => .answered (.error e)

/-- The cache after an event. -/
def nextCache (w : World) : Event → Cache
  | .call _ _ _ _ => w.cache
  | .response caller result instant _ =>
    match w.waiting caller, result with
    | some _, .ok jwks => some (instant, jwks)
    | _, _ => w.cache

/-- The calls that wait after an event. -/
def nextWaiting (w : World) (e : Event) : ℕ → Option Waiting :=
  match progress jwt config w e with
  | some (.answered _) => Function.update w.waiting e.caller none
  | some (.fetching waiting) => Function.update w.waiting e.caller (some waiting)
  | none => w.waiting

/-- **An event.** -/
def step (w : World) (e : Event) : World where
  cache := nextCache w e
  waiting := nextWaiting jwt config w e

/-- The answer that is given at an event. -/
def answer (w : World) (e : Event) : Option (Except Text AuthContext) :=
  match progress jwt config w e with
  | some (.answered r) => some r
  | _ => none

/-! ### Who is let in -/

/-- **A verified token**: the caller has sent it, and it is verified under a key that an
answer of the provider of less than 300 seconds before holds – the one with the id the token
names, if there is one. -/
structure Evidence (events : List Event) (e : Event) where
  token : Text
  header : JwtHeader
  jwks : Jwks
  jwk : Jwk
  modulus : Text
  exponent : Text
  key : jwt.Key
  claims : Claims
  sent : ∃ instant now, .call e.caller (some ("Bearer ".toList ++ token)) instant now ∈ events
  published : ∃ caller received now, .response caller (.ok jwks) received now ∈ events ∧
    e.instant < received + maxAge
  decoded : jwt.decodeHeader token = .ok header
  jwk_mem : jwk ∈ jwks.keys
  kid : ∀ kid, header.kid = some kid → (∃ k ∈ jwks.keys, k.kid = some kid) → jwk.kid = some kid
  kty : jwk.kty = "RSA".toList
  components : jwk.n = some modulus ∧ jwk.e = some exponent ∧
    jwt.fromRsaComponents modulus exponent = .ok key
  verified : jwt.decode e.now token key (config.validation header) = .ok claims

/-- **Why a caller is let in.** -/
inductive LetIn (events : List Event) (e : Event) : AuthContext → Prop
  /-- Nothing is asked for. -/
  | anonymous : config.authRequired = false →
      LetIn events e { subject := "anonymous", allowedProjects := config.allowedProjects }
  /-- With the static token. -/
  | staticToken (token : Text) (instant : ℕ) (now : Time) : config.staticToken = some token →
      e = .call e.caller (some ("Bearer ".toList ++ token)) instant now →
      LetIn events e { subject := "static-token", allowedProjects := config.allowedProjects }
  /-- With a token that is verified. -/
  | jwt : config.oidcJwksUrl.isSome = true → (evidence : Evidence jwt config events e) →
      LetIn events e
        { subject := evidence.claims.subject
          allowedProjects := config.projectsOf evidence.claims.subject }

/-- **What the state goes back to**: the keys in the cache are of an answer, and who waits
has sent the token. -/
structure Traced (events : List Event) (w : World) : Prop where
  cache : ∀ received jwks, w.cache = some (received, jwks) →
    ∃ caller now, Event.response caller (.ok jwks) received now ∈ events
  waiting : ∀ caller waiting, w.waiting caller = some waiting →
    config.oidcJwksUrl.isSome = true ∧ jwt.decodeHeader waiting.token = .ok waiting.header ∧
      ∃ instant now,
        Event.call caller (some ("Bearer ".toList ++ waiting.token)) instant now ∈ events

variable {jwt config}

section Spec

variable {token : Text} {header : JwtHeader} {jwks : Jwks} {jwk : Jwk} {now : Time}
  {ctx : AuthContext} {cache : Cache} {instant : ℕ} {p : Progress}

/-- The key that is chosen is one of the keys, and has the id if there is one that has. -/
theorem jwk_spec (h : header.jwk jwks = some jwk) :
    jwk ∈ jwks.keys ∧ ∀ kid, header.kid = some kid → (∃ k ∈ jwks.keys, k.kid = some kid) →
      jwk.kid = some kid := by
  unfold JwtHeader.jwk at h
  rcases hfind : jwks.keys.find? fun k => header.kid.any fun kid => k.kid == some kid with
    - | k
  · rw [hfind, Option.none_or] at h
    refine ⟨List.mem_of_mem_head? h, ?_⟩
    rintro kid hkid ⟨k, hk, heq⟩
    exact absurd (List.find?_eq_none.mp hfind k hk) (by simp [hkid, heq])
  · rw [hfind, Option.some_or] at h
    obtain rfl := Option.some.inj h
    refine ⟨List.mem_of_find?_eq_some hfind, fun kid hkid _ => ?_⟩
    have hany := List.find?_some hfind
    simpa [hkid] using hany

/-- **What it takes to verify a token.** -/
theorem verify_spec (h : verify jwt config token header jwks now = .ok ctx) :
    ∃ jwk n exp key claims, header.jwk jwks = some jwk ∧ jwk.kty = "RSA".toList ∧
      jwk.n = some n ∧ jwk.e = some exp ∧ jwt.fromRsaComponents n exp = .ok key ∧
      jwt.decode now token key (config.validation header) = .ok claims ∧
      ctx = { subject := claims.subject, allowedProjects := config.projectsOf claims.subject } := by
  unfold verify at h
  split at h
  · cases h
  · rename_i jwk hjwk
    split at h
    · cases h
    · rename_i hkty
      split at h
      · cases h
      · cases h
      · rename_i n e hn he
        split at h
        · cases h
        · rename_i key hkey
          split at h
          · cases h
          · rename_i claims hclaims
            exact ⟨jwk, n, e, key, claims, hjwk, not_not.mp hkty, hn, he, hkey, hclaims,
              (Except.ok.inj h).symm⟩

variable (jwt config cache token instant now) in
/-- What `authenticate_jwt` does before the provider is asked. -/
theorem authenticateJwt_cases :
    (∃ e, authenticateJwt jwt config cache token instant now = .answered (.error e)) ∨
      ∃ header, jwt.decodeHeader token = .ok header ∧
        ((∃ jwks, cache.fresh instant = some jwks ∧
          authenticateJwt jwt config cache token instant now =
            .answered (verify jwt config token header jwks now)) ∨
          authenticateJwt jwt config cache token instant now = .fetching { token, header }) := by
  unfold authenticateJwt
  split
  · exact Or.inl ⟨_, rfl⟩
  · rename_i header hheader
    split
    · exact Or.inr ⟨header, hheader, Or.inl ⟨_, by assumption, rfl⟩⟩
    · split
      · exact Or.inl ⟨_, rfl⟩
      · exact Or.inr ⟨header, hheader, Or.inr rfl⟩

variable (jwt config cache instant now) in
/-- What `authenticate_bearer` does with a header. -/
theorem authenticateBearer_cases (bearer : Option Text) :
    (config.authRequired = false ∧
        authenticateBearer jwt config cache bearer instant now =
          .answered (.ok
            { subject := "anonymous", allowedProjects := config.allowedProjects })) ∨
      (∃ e, authenticateBearer jwt config cache bearer instant now = .answered (.error e)) ∨
      ∃ token, bearer = some ("Bearer ".toList ++ token) ∧
        ((config.staticToken = some token ∧
          authenticateBearer jwt config cache bearer instant now =
            .answered (.ok
              { subject := "static-token", allowedProjects := config.allowedProjects })) ∨
          (config.oidcJwksUrl.isSome = true ∧
            authenticateBearer jwt config cache bearer instant now =
              authenticateJwt jwt config cache token instant now)) := by
  unfold authenticateBearer
  split
  · rename_i hreq
    exact Or.inl ⟨by simpa using hreq, rfl⟩
  refine Or.inr ?_
  split
  · exact Or.inl ⟨_, rfl⟩
  · rename_i token htoken
    have hbearer : bearer = some ("Bearer ".toList ++ token) := by
      obtain ⟨h, rfl, hdrop⟩ := Option.bind_eq_some_iff.mp htoken
      obtain ⟨pre, heq, hpre⟩ := List.dropPrefix?_eq_some_iff.mp hdrop
      obtain rfl : pre = "Bearer ".toList := by simpa using hpre
      rw [heq]
    split
    · rename_i hstatic
      exact Or.inr ⟨token, hbearer, Or.inl ⟨hstatic, rfl⟩⟩
    · split
      · rename_i hoidc
        exact Or.inr ⟨token, hbearer, Or.inr ⟨hoidc, rfl⟩⟩
      · exact Or.inl ⟨_, rfl⟩

/-- Fresh keys are in the cache since less than 300 seconds. -/
theorem fresh_spec (h : cache.fresh instant = some jwks) :
    ∃ received, cache = some (received, jwks) ∧ instant < received + maxAge := by
  unfold Cache.fresh at h
  split at h
  · rename_i received jwks'
    split_ifs at h with hage
    obtain rfl := Option.some.inj h
    exact ⟨received, rfl, by omega⟩
  · cases h

end Spec

section Run

variable {events : List Event} {e : Event} {w : World} {ctx : AuthContext}

theorem Traced.mono (h : Traced jwt config events w) (e : Event) :
    Traced jwt config (events ++ [e]) w where
  cache received jwks hcache := by
    obtain ⟨caller, now, hmem⟩ := h.cache received jwks hcache
    exact ⟨caller, now, List.mem_append_left _ hmem⟩
  waiting caller waiting hwaiting := by
    obtain ⟨hoidc, hheader, instant, now, hmem⟩ := h.waiting caller waiting hwaiting
    exact ⟨hoidc, hheader, instant, now, List.mem_append_left _ hmem⟩

/-- A call that goes on to wait has sent its token. -/
theorem bearer_of_fetching {bearer : Option Text} {instant : ℕ} {now : Time} {cache : Cache}
    {waiting : Waiting}
    (h : authenticateBearer jwt config cache bearer instant now = .fetching waiting) :
    config.oidcJwksUrl.isSome = true ∧ jwt.decodeHeader waiting.token = .ok waiting.header ∧
      bearer = some ("Bearer ".toList ++ waiting.token) := by
  rcases authenticateBearer_cases jwt config now cache instant bearer with
    ⟨-, heq⟩ | ⟨_, heq⟩ | ⟨token, rfl, ⟨-, heq⟩ | ⟨hoidc, heq⟩⟩ <;> rw [heq] at h
  · cases h
  · cases h
  · cases h
  · rcases authenticateJwt_cases jwt config token now cache instant with
      ⟨_, heq⟩ | ⟨header, hheader, ⟨_, -, heq⟩ | heq⟩ <;> rw [heq] at h
    · cases h
    · cases h
    · cases h
      exact ⟨hoidc, hheader, rfl⟩

/-- A token that verifies is evidence. -/
theorem letIn_of_verify {token : Text} {header : JwtHeader} {jwks : Jwks}
    (hoidc : config.oidcJwksUrl.isSome = true)
    (hsent : ∃ instant now,
      Event.call e.caller (some ("Bearer ".toList ++ token)) instant now ∈ events)
    (hpublished : ∃ caller received now, Event.response caller (.ok jwks) received now ∈ events ∧
      e.instant < received + maxAge)
    (hheader : jwt.decodeHeader token = .ok header)
    (h : verify jwt config token header jwks e.now = .ok ctx) : LetIn jwt config events e ctx := by
  obtain ⟨jwk, n, exp, key, claims, hjwk, hkty, hn, he, hkey, hclaims, rfl⟩ := verify_spec h
  exact .jwt hoidc
    { token, header, jwks, jwk, modulus := n, exponent := exp, key, claims
      sent := hsent
      published := hpublished
      decoded := hheader
      jwk_mem := (jwk_spec hjwk).1
      kid := (jwk_spec hjwk).2
      kty := hkty
      components := ⟨hn, he, hkey⟩
      verified := hclaims }

/-- **Who is let in at an event.** -/
theorem letIn_of_answer (hw : Traced jwt config events w)
    (h : answer jwt config w e = some (.ok ctx)) : LetIn jwt config (events ++ [e]) e ctx := by
  have hself : e ∈ events ++ [e] := List.mem_append_right _ (List.mem_singleton.mpr rfl)
  have hprogress : progress jwt config w e = some (.answered (.ok ctx)) := by
    unfold answer at h
    split at h
    · rename_i r hr
      obtain rfl := Option.some.inj h
      exact hr
    · cases h
  cases e with
  | call caller bearer instant now =>
    unfold progress at hprogress
    dsimp only at hprogress
    split at hprogress
    · have hanswer := Option.some.inj hprogress
      rcases authenticateBearer_cases jwt config now w.cache instant bearer with
        ⟨hreq, heq⟩ | ⟨_, heq⟩ | ⟨token, rfl, ⟨hstatic, heq⟩ | ⟨hoidc, heq⟩⟩ <;> rw [heq] at hanswer
      · cases hanswer
        exact .anonymous hreq
      · cases hanswer
      · cases hanswer
        exact .staticToken token instant now hstatic rfl
      · rcases authenticateJwt_cases jwt config token now w.cache instant with
          ⟨_, heq⟩ | ⟨header, hheader, ⟨jwks, hfresh, heq⟩ | heq⟩ <;> rw [heq] at hanswer
        · cases hanswer
        · obtain ⟨received, hcache, hage⟩ := fresh_spec hfresh
          obtain ⟨other, at', hmem⟩ := (hw.mono _).cache received jwks hcache
          injection hanswer with hverify
          exact letIn_of_verify hoidc ⟨instant, now, hself⟩ ⟨other, received, at', hmem, hage⟩
            hheader hverify
        · cases hanswer
    · cases hprogress
  | response caller result instant now =>
    unfold progress at hprogress
    obtain ⟨waiting, hwaiting, hanswer⟩ := Option.map_eq_some_iff.mp hprogress
    cases result with
    | error e => cases hanswer
    | ok jwks =>
      obtain ⟨hoidc, hheader, hsent⟩ :=
        (hw.mono (.response caller (.ok jwks) instant now)).waiting caller waiting hwaiting
      injection hanswer with hverify
      refine letIn_of_verify hoidc hsent ⟨caller, instant, now, hself, ?_⟩ hheader hverify
      exact Nat.lt_add_of_pos_right (by decide)

/-- **An event keeps the state traced.** -/
theorem traced_step (hw : Traced jwt config events w) :
    Traced jwt config (events ++ [e]) (step jwt config w e) := by
  have hself : e ∈ events ++ [e] := List.mem_append_right _ (List.mem_singleton.mpr rfl)
  constructor
  · intro received jwks hcache
    replace hcache : nextCache w e = some (received, jwks) := hcache
    cases e with
    | call caller bearer instant now => exact (hw.mono _).cache received jwks hcache
    | response caller result instant now =>
      unfold nextCache at hcache
      dsimp only at hcache
      split at hcache
      · cases hcache
        exact ⟨caller, now, hself⟩
      · exact (hw.mono _).cache received jwks hcache
  · intro caller waiting hwaiting
    replace hwaiting : nextWaiting jwt config w e caller = some waiting := hwaiting
    unfold nextWaiting at hwaiting
    rcases hprogress : progress jwt config w e with - | (r | waiting') <;>
      rw [hprogress] at hwaiting <;> dsimp only at hwaiting
    · exact (hw.mono _).waiting caller waiting hwaiting
    · rcases eq_or_ne caller e.caller with rfl | hne
      · rw [Function.update_self] at hwaiting
        cases hwaiting
      · rw [Function.update_of_ne hne] at hwaiting
        exact (hw.mono _).waiting caller waiting hwaiting
    · rcases eq_or_ne caller e.caller with rfl | hne
      · rw [Function.update_self] at hwaiting
        obtain rfl := Option.some.inj hwaiting
        cases e with
        | call caller bearer instant now =>
          unfold progress at hprogress
          dsimp only at hprogress
          split at hprogress
          · obtain ⟨hoidc, hheader, rfl⟩ := bearer_of_fetching (Option.some.inj hprogress)
            exact ⟨hoidc, hheader, instant, now, hself⟩
          · cases hprogress
        | response caller result instant now =>
          unfold progress at hprogress
          obtain ⟨_, -, hfetching⟩ := Option.map_eq_some_iff.mp hprogress
          split at hfetching <;> cases hfetching
      · rw [Function.update_of_ne hne] at hwaiting
        exact (hw.mono _).waiting caller waiting hwaiting

end Run

/-- A gateway with a static token and an identity provider, and a project for `alice`. -/
def sampleConfig : AuthConfig where
  staticToken := some "s3cret"
  oidcJwksUrl := some "https://idp/jwks"
  oidcAudience := none
  oidcIssuer := none
  allowedProjects := ["projects/p"]
  identityProjectMap := (∅ : StrMap Text).insert "alice" "projects/alice"

/-- A token of `alice` that is good for an hour, signed with the key `k2`. -/
@[irreducible] def aliceToken : Text :=
  List.flatMap String.toList
    ["eyJ0eXAiOiJKV1QiLCJhbGciOiJS", "UzI1NiIsImtpZCI6ImsyIn0.", "eyJzdWIiOiJhbGljZSIsImV4cCI6",
     "MzYwMH0.", "R-NYXnG0lEXh9Fo1kUZBN-9FsPSz", "8ECiLKKLaadHxjEhDXfGndGLWwqx",
     "9Qzk4Cm3PoA9w9I0Rbs3-d1efLeI", "TzfykHXyU1ockkyN3EVwiRHE0IMv", "kLSS3Zp3HgMNiBzlN6IkFRuLCDxa",
     "ae0PN_PO-gT0cyKnPyqube2kNzZx", "_jkxt1lvkvOXFqy1iHVAJXwsGvDH", "l3azwmYmhA6_emcQgXV1DYaP-dvU",
     "ov19pxDBqtUbOS4ZCFlIGgp4wbDG", "un8zp-Awum0SHccxVL6WtTX2MuTm", "t6ewwErFbd-I1fO7_3zv0DJoD-xb",
     "hpAVN5kAIlFl99qfd7LKvDRRjyXS", "93q_dA"]

/-- The keys of the provider. -/
@[irreducible] def sampleJwks : Jwks where
  keys :=
    [{ kid := some "k1", kty := "EC", n := none, e := none },
      { kid := some "k2"
        kty := "RSA"
        n := some <| List.flatMap String.toList
          ["wjLNbiVjaDinbMML7PVDc6xN6r", "GmPd-OsnyCpKIotjy5SIDJVxgj", "KsnYYQ6pt5PjFsG3wWuupWXlzf",
           "gNq8RXz-3byOPEsXT4aJ3tg_am", "P-kZT-fOiw49-J914C3wYht3hK", "AW4tCMMlN6Y3v7jD_zy8g7NYu7",
           "WXUo0xlXRXXnp1zKN7ZT_EiIrE", "YPZz7UcqbG3TrBPYfb764spV2p", "XIzNQhxvuRDfed2kR-kZq2Tdzt",
           "1K8TkIjZSmXLOrsy0GoNWFlOso", "CCggrr3nlxXsk5U9cA1orqRRFS", "eKxwcRWeuHXPOTpf63cxDRKTUx",
           "8b7jVjMs3CN68haBeBd9nQ9pci", "uukw"]
        e := some "AQAB" }]

/-- Somebody guesses; `alice` makes a call, for which the keys are fetched, and another one. -/
def sampleEvents : List Event :=
  [.call 0 (some "Bearer guess") 0 0,
    .call 1 (some ("Bearer ".toList ++ aliceToken)) 0 0,
    .response 1 (.ok sampleJwks) 1000000000 (seconds 1)]

def secondCall : Event :=
  .call 1 (some ("Bearer ".toList ++ aliceToken)) 20000000000 (seconds 20)

end Authenticator

end RelayPubsub

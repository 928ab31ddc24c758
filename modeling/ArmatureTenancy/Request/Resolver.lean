import ArmatureTenancy.Request.Http
import ArmatureTenancy.Foundations.Programs

/-!
# The built-in tenant resolvers

A resolver reads a key off the request, looks it up in the tenant store and
admits what it finds by the tenant's `active` flag alone. The four resolvers
differ in the key and in the lookup.
-/

namespace ArmatureTenancy

open Foundations

/-- The methods of `TenantStore`. -/
inductive TenantStoreCall where
  | findById : (id : String) → TenantStoreCall
  | findByName : (name : String) → TenantStoreCall
  | findByDomain : (domain : String) → TenantStoreCall

abbrev TenantStoreCall.Answer (_ : TenantStoreCall) : Type := Except TenantError (Option Tenant)

abbrev ResolverM := ExceptT TenantError (Program TenantStoreCall TenantStoreCall.Answer)

def tenantStoreCall (e : TenantStoreCall) : ResolverM (Option Tenant) := .mk (.perform e)

def findActive (find : String → TenantStoreCall) (key : String) : ResolverM Tenant := do
  match ← tenantStoreCall (find key) with
  | none => throw (.notFound key)
  | some tenant => if !tenant.active then throw .inactive else pure tenant

def resolveBy (find : String → TenantStoreCall) (key : Except TenantError String) :
    ResolverM Tenant :=
  match key with
  | .error e => throw e
  | .ok key => findActive find key

structure HeaderTenantResolver where
  headerName : String

section Resolvers

variable {H X B : Type} [HeaderMap H]

def HeaderTenantResolver.tenantId (resolver : HeaderTenantResolver)
    (request : HttpRequest H X B) : Except TenantError String :=
  match HeaderMap.get request.headers resolver.headerName with
  | some tenantId => .ok tenantId
  | none => .error (.notFound ("Missing header: " ++ resolver.headerName))

def HeaderTenantResolver.resolve (resolver : HeaderTenantResolver)
    (request : HttpRequest H X B) : ResolverM Tenant :=
  resolveBy .findById (resolver.tenantId request)

structure SubdomainTenantResolver where
  baseDomain : String

/-- `str::strip_suffix`. -/
def stripSuffix (s ending : String) : Option String :=
  if ending.toList.isSuffixOf s.toList then
    some (String.ofList (s.toList.take (s.toList.length - ending.toList.length)))
  else none

/-- The host without its port, minus `.{base_domain}`, if that is one label. -/
def SubdomainTenantResolver.extractSubdomain (resolver : SubdomainTenantResolver)
    (host : String) : Option String :=
  let host := String.ofList (host.toList.takeWhile (· ≠ ':'))
  match stripSuffix host ("." ++ resolver.baseDomain) with
  | some subdomain =>
    if !subdomain.isEmpty && !subdomain.toList.contains '.' then some subdomain else none
  | none => none

def SubdomainTenantResolver.subdomain (resolver : SubdomainTenantResolver)
    (request : HttpRequest H X B) : Except TenantError String :=
  match HeaderMap.get request.headers "host" with
  | none => .error (.resolutionFailed "Missing Host header")
  | some host =>
    match resolver.extractSubdomain host with
    | none => .error (.resolutionFailed ("No subdomain in: " ++ host))
    | some subdomain => .ok subdomain

def SubdomainTenantResolver.resolve (resolver : SubdomainTenantResolver)
    (request : HttpRequest H X B) : ResolverM Tenant :=
  resolveBy .findByName (resolver.subdomain request)

structure JwtTenantResolver where
  claimName : String

/-- The claim as one non-empty string, or a list of exactly one. -/
def JwtTenantResolver.extractClaim (resolver : JwtTenantResolver) (user : UserContext) :
    Except TenantError String :=
  let invalid : TenantError :=
    .invalid ("claim '" ++ resolver.claimName ++ "' is not a non-empty string")
  match user.metadata.get resolver.claimName with
  | some (.string value) => if value.isEmpty then .error invalid else .ok value
  | some (.array [.string value]) => if value.isEmpty then .error invalid else .ok value
  | some _ => .error invalid
  | none => .error (.resolutionFailed
      ("verified token is missing the '" ++ resolver.claimName ++ "' claim"))

def JwtTenantResolver.tenantId [TypedStorage X UserContext] (resolver : JwtTenantResolver)
    (request : HttpRequest H X B) : Except TenantError String :=
  match request.extension UserContext with
  | none => .error (.resolutionFailed
      "no verified UserContext on the request (is JwtAuthMiddleware registered first?)")
  | some user => resolver.extractClaim user

def JwtTenantResolver.resolve [TypedStorage X UserContext] (resolver : JwtTenantResolver)
    (request : HttpRequest H X B) : ResolverM Tenant :=
  resolveBy .findById (resolver.tenantId request)

/-- A compiled pattern maps a path to its capture groups. -/
structure PathTenantResolver where
  pattern : String → Option (ℕ → Option String)
  groupIndex : ℕ

def PathTenantResolver.tenantName [RequestTarget B] (resolver : PathTenantResolver)
    (request : HttpRequest H X B) : Except TenantError String :=
  match resolver.pattern (RequestTarget.pathOnly request.rest) with
  | none => .error (.resolutionFailed "Path pattern not matched")
  | some captures =>
    match captures resolver.groupIndex with
    | none => .error (.resolutionFailed "Capture group not found")
    | some tenantName => .ok tenantName

def PathTenantResolver.resolve [RequestTarget B] (resolver : PathTenantResolver)
    (request : HttpRequest H X B) : ResolverM Tenant :=
  resolveBy .findByName (resolver.tenantName request)

inductive BuiltinResolver where
  | header : HeaderTenantResolver → BuiltinResolver
  | subdomain : SubdomainTenantResolver → BuiltinResolver
  | jwt : JwtTenantResolver → BuiltinResolver
  | path : PathTenantResolver → BuiltinResolver

variable [TypedStorage X UserContext] [RequestTarget B]

def BuiltinResolver.resolve (request : HttpRequest H X B) : BuiltinResolver → ResolverM Tenant
  | .header resolver => resolver.resolve request
  | .subdomain resolver => resolver.resolve request
  | .jwt resolver => resolver.resolve request
  | .path resolver => resolver.resolve request

/-- Every built-in resolver is a key, a lookup and the check of the active flag. -/
theorem BuiltinResolver.resolve_eq (resolver : BuiltinResolver) (request : HttpRequest H X B) :
    ∃ find key, resolver.resolve request = resolveBy find key := by
  cases resolver with
  | header resolver => exact ⟨_, _, rfl⟩
  | subdomain resolver => exact ⟨_, _, rfl⟩
  | jwt resolver => exact ⟨_, _, rfl⟩
  | path resolver => exact ⟨_, _, rfl⟩

end Resolvers

def admitted (tenant : Tenant) : Except TenantError Tenant :=
  if tenant.active then .ok tenant else .error .inactive

theorem admitted_ok_iff (tenant t : Tenant) :
    admitted tenant = .ok t ↔ tenant.active = true ∧ t = tenant := by
  unfold admitted
  cases tenant.active <;> simp [eq_comm]

theorem admitted_run (tenant : Tenant) :
    (if !tenant.active then throw .inactive else pure tenant : ResolverM Tenant).run =
      .pure (admitted tenant) := by
  unfold admitted
  cases tenant.active <;> rfl

def lookupResult (key : String) : Except TenantError (Option Tenant) → Except TenantError Tenant
  | .error e => .error e
  | .ok none => .error (.notFound key)
  | .ok (some tenant) => admitted tenant

section Runs

variable {C σ : Type} {env : Environment C σ TenantStoreCall TenantStoreCall.Answer}
  {find : String → TenantStoreCall} {st st' : σ}
  {log : List (Exchange TenantStoreCall TenantStoreCall.Answer)}
  {result : Except TenantError Tenant}

theorem runs_findActive {key : String}
    (h : (findActive find key).run.Runs env st log result st') :
    ∃ answer, log = [⟨find key, answer⟩] ∧ result = lookupResult key answer := by
  obtain ⟨c, answer, s₁, tail, -, rfl, htail⟩ := Program.runs_call_iff.mp h
  have hrun : (Program.pure (lookupResult key answer)).Runs env s₁ tail result st' := by
    match answer with
    | .error e => exact htail
    | .ok none => exact htail
    | .ok (some tenant) =>
      rw [lookupResult, ← admitted_run]
      exact htail
  obtain ⟨rfl, rfl, -⟩ := Program.runs_pure_iff.mp hrun
  exact ⟨answer, rfl, rfl⟩

theorem calls_resolveBy {key : Except TenantError String}
    (h : (resolveBy find key).run.Runs env st log result st') :
    (∃ e, key = .error e ∧ log = [] ∧ result = .error e) ∨
      ∃ k answer, key = .ok k ∧ log = [⟨find k, answer⟩] ∧ result = lookupResult k answer := by
  cases key with
  | error e =>
    obtain ⟨rfl, rfl, -⟩ := Program.runs_pure_iff.mp h
    exact .inl ⟨e, rfl, rfl, rfl⟩
  | ok k =>
    obtain ⟨answer, hlog, hresult⟩ := runs_findActive h
    exact .inr ⟨k, answer, rfl, hlog, hresult⟩

/-- A resolver that looks a tenant up admits it by its active flag alone, and
returns nothing else. -/
theorem runs_resolveBy {key : Except TenantError String}
    (h : (resolveBy find key).run.Runs env st log result st') :
    (∃ call tenant, log = [⟨call, .ok (some tenant)⟩] ∧ result = admitted tenant) ∨
      ((∀ t, result ≠ .ok t) ∧ ∀ call tenant, ⟨call, .ok (some tenant)⟩ ∉ log) := by
  rcases calls_resolveBy h with ⟨e, -, rfl, rfl⟩ | ⟨k, answer, -, rfl, rfl⟩
  · exact .inr ⟨by simp, by simp⟩
  · match answer with
    | .error e => exact .inr ⟨by simp [lookupResult], by simp⟩
    | .ok none => exact .inr ⟨by simp [lookupResult], by simp⟩
    | .ok (some tenant) => exact .inl ⟨find k, tenant, rfl, rfl⟩

end Runs

end ArmatureTenancy

import ArmatureTenancy.Request.Http
import ArmatureTenancy.Foundations.Programs

/-!
# The tenant middleware

The middleware asks its resolver which tenant a request is about, binds the
tenant to the verified principal, stores the result in the request's extensions
and calls the rest of the chain. The resolver and the rest of the chain are the
two things it calls; nothing is assumed about what they answer.
-/

namespace ArmatureTenancy

open Foundations

/-- Where the authenticated principal's tenant memberships are read from. -/
structure TenantMembership where
  tenantsClaim : String
  singleTenantClaim : Option String

namespace TenantMembership

def new (tenantsClaim : String) : TenantMembership := ⟨tenantsClaim, none⟩

def withSingleTenantClaim (membership : TenantMembership) (claim : String) : TenantMembership :=
  { membership with singleTenantClaim := some claim }

def default : TenantMembership := (new "tenants").withSingleTenantClaim "tenant_id"

/-- The tenant ids a claim names: one string, or the strings of an array. -/
def strings : Json → List String
  | .string s => if s.isEmpty then [] else [s]
  | .array items => (items.filterMap Json.asStr).filter fun s => !s.isEmpty
  | _ => []

def tenantsOf (membership : TenantMembership) (user : UserContext) : List String :=
  match user.metadata.get membership.tenantsClaim with
  | some value => strings value
  | none =>
    match membership.singleTenantClaim with
    | some claim =>
      match user.metadata.get claim with
      | some (.string s) => if s.isEmpty then [] else [s]
      | _ => []
    | none => []

def isMember (membership : TenantMembership) (user : UserContext) (tenantId : String) : Bool :=
  (membership.tenantsOf user).any fun t => t == tenantId

theorem isMember_iff (membership : TenantMembership) (user : UserContext) (tenantId : String) :
    membership.isMember user tenantId = true ↔ tenantId ∈ membership.tenantsOf user := by
  simp [isMember]

end TenantMembership

structure TenantMiddleware where
  optional : Bool
  /-- `none` only for `publicUnverified`. -/
  membership : Option TenantMembership

namespace TenantMiddleware

def new : TenantMiddleware := ⟨false, some .default⟩

def publicUnverified : TenantMiddleware := ⟨false, none⟩

def withMembership (mw : TenantMiddleware) (membership : TenantMembership) : TenantMiddleware :=
  if mw.membership.isSome then { mw with membership := some membership } else mw

def withOptional (mw : TenantMiddleware) (optional : Bool) : TenantMiddleware :=
  { mw with optional := optional }

end TenantMiddleware

def internalTenantHeaderPrefix : String := "__tenant"

def bytes (s : String) : List UInt8 := s.toUTF8.data.toList

def toAsciiLowercase (b : UInt8) : UInt8 := if 65 ≤ b ∧ b ≤ 90 then b + 32 else b

def eqIgnoreAsciiCase (a b : List UInt8) : Bool :=
  a.map toAsciiLowercase == b.map toAsciiLowercase

/-- Whether a header name starts with the internal prefix, in any casing. -/
def isInternalTenantHeader (name : String) : Bool :=
  let length := (bytes internalTenantHeaderPrefix).length
  decide (length ≤ (bytes name).length) &&
    eqIgnoreAsciiCase ((bytes name).take length) (bytes internalTenantHeaderPrefix)

section Handle

variable {H X B ε P : Type}

/-- Remove every client-supplied `__tenant*` header from the request. -/
def stripIncomingTenantHeaders [HeaderMap H] (request : HttpRequest H X B) : HttpRequest H X B :=
  let toRemove := (HeaderMap.names request.headers).filter isInternalTenantHeader
  { request with headers := toRemove.foldl HeaderMap.removeAll request.headers }

/-- What the middleware calls: its resolver, and the rest of the chain. -/
inductive MiddlewareCall (H X B : Type) where
  | resolve : HttpRequest H X B → MiddlewareCall H X B
  | next : HttpRequest H X B → MiddlewareCall H X B

abbrev MiddlewareCall.Answer (ε P : Type) : MiddlewareCall H X B → Type
  | .resolve _ => Except TenantError Tenant
  | .next _ => Except (Error ε) P

abbrev MiddlewareProgram (H X B ε P : Type) :=
  Program (MiddlewareCall H X B) (MiddlewareCall.Answer ε P)

abbrev MiddlewareM (H X B ε P : Type) := ExceptT (Error ε) (MiddlewareProgram H X B ε P)

def middlewareCall (e : MiddlewareCall H X B) : MiddlewareProgram H X B ε P (e.Answer ε P) :=
  .perform e

/-- The resolver's result is inspected, not returned early. -/
def resolve (request : HttpRequest H X B) :
    MiddlewareM H X B ε P (Except TenantError Tenant) :=
  ExceptT.lift (middlewareCall (.resolve request))

def next (request : HttpRequest H X B) : MiddlewareM H X B ε P P :=
  .mk (middlewareCall (.next request))

/-- The `?` operator on a value that is already there. -/
def liftExcept {α : Type} (value : Except (Error ε) α) : MiddlewareM H X B ε P α :=
  .mk (.pure value)

namespace TenantMiddleware

section Context

variable [TypedStorage X UserContext] {mw : TenantMiddleware} {membership : TenantMembership}
  {request : HttpRequest H X B} {tenant : Tenant} {user : UserContext}

/-- The context for a resolved tenant, or the early return that refuses it. -/
def contextFor (mw : TenantMiddleware) (request : HttpRequest H X B) (tenant : Tenant) :
    Except (Error ε) TenantContext :=
  match mw.membership with
  | some membership =>
    match request.extension UserContext with
    | none => .error (.unauthorized "Tenant access requires an authenticated principal")
    | some user =>
      if !membership.isMember user tenant.id then
        .error (.forbidden "Principal is not a member of the requested tenant")
      else .ok (TenantContext.boundToPrincipal tenant)
  | none => .ok (TenantContext.withTenant tenant)

theorem contextFor_unbound (hmw : mw.membership = none) :
    mw.contextFor request tenant =
      (.ok (TenantContext.withTenant tenant) : Except (Error ε) TenantContext) := by
  simp only [contextFor, hmw]

theorem contextFor_no_principal (hmw : mw.membership = some membership)
    (huser : request.extension UserContext = none) :
    mw.contextFor request tenant = (.error (.unauthorized
      "Tenant access requires an authenticated principal") : Except (Error ε) TenantContext) := by
  simp only [contextFor, hmw, huser]

theorem contextFor_stranger (hmw : mw.membership = some membership)
    (huser : request.extension UserContext = some user)
    (hmember : tenant.id ∉ membership.tenantsOf user) :
    mw.contextFor request tenant = (.error (.forbidden
      "Principal is not a member of the requested tenant") : Except (Error ε) TenantContext) := by
  rw [← membership.isMember_iff] at hmember
  simp only [contextFor, hmw, huser, hmember, Bool.not_false, if_true]

theorem contextFor_member (hmw : mw.membership = some membership)
    (huser : request.extension UserContext = some user)
    (hmember : tenant.id ∈ membership.tenantsOf user) :
    mw.contextFor request tenant =
      (.ok (TenantContext.boundToPrincipal tenant) : Except (Error ε) TenantContext) := by
  rw [← membership.isMember_iff] at hmember
  simp [contextFor, hmw, huser, hmember]

end Context

variable [TypedStorage X TenantContext]

/-- The request the resolver sees: no internal headers, no preset context. -/
def stripped [HeaderMap H] (request : HttpRequest H X B) : HttpRequest H X B :=
  (stripIncomingTenantHeaders request).withoutExtension TenantContext

variable [TypedStorage X UserContext]

def proceed (mw : TenantMiddleware) (request : HttpRequest H X B) :
    Except TenantError Tenant → MiddlewareM H X B ε P P
  | .ok tenant => do
    let context ← liftExcept (mw.contextFor request tenant)
    next (request.withExtension context)
  | .error e =>
    if mw.optional then next (request.withoutExtension TenantContext)
    else throw (.unauthorized ("Tenant resolution failed: " ++ e.toString))

def handle [HeaderMap H] (mw : TenantMiddleware) (request : HttpRequest H X B) :
    MiddlewareM H X B ε P P := do
  let request := stripped request
  let resolved ← resolve request
  mw.proceed request resolved

theorem handle_run [HeaderMap H] (mw : TenantMiddleware) (request : HttpRequest H X B) :
    (mw.handle request : MiddlewareM H X B ε P P).run =
      .call (.resolve (stripped request)) fun resolved =>
        (mw.proceed (stripped request) resolved).run := rfl

section Proceed

variable {mw : TenantMiddleware} {request : HttpRequest H X B} {tenant : Tenant}

theorem proceed_error (e : TenantError) :
    (mw.proceed request (.error e) : MiddlewareM H X B ε P P).run =
      if mw.optional then .call (.next (request.withoutExtension TenantContext)) .pure
      else .pure (.error (.unauthorized ("Tenant resolution failed: " ++ e.toString))) := by
  simp only [proceed]
  split <;> rfl

theorem proceed_refused {e : Error ε} (h : mw.contextFor request tenant = .error e) :
    (mw.proceed request (.ok tenant) : MiddlewareM H X B ε P P).run = .pure (.error e) := by
  simp only [proceed, h]
  rfl

theorem proceed_granted {context : TenantContext}
    (h : mw.contextFor request tenant = (.ok context : Except (Error ε) TenantContext)) :
    (mw.proceed request (.ok tenant) : MiddlewareM H X B ε P P).run =
      .call (.next (request.withExtension context)) .pure := by
  simp only [proceed, h]
  rfl

end Proceed
end TenantMiddleware
end Handle
end ArmatureTenancy

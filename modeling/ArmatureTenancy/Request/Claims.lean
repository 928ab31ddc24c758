import ArmatureTenancy.Request.Resolver
import ArmatureTenancy.Request.Middleware

/-!
# The readers of a tenant claim

The token resolver, the claim of memberships and the single-tenant claim are read by
three pieces of code. The resolver reads a string or an array of one string, and the
membership reader finds exactly the tenant it chose. The single-tenant claim is read as
a string only.
-/

namespace ArmatureTenancy

open Foundations

theorem nonempty_ok_iff (e : TenantError) (value t : String) :
    (if value.isEmpty then .error e else .ok value : Except TenantError String) = .ok t ↔
      t ≠ "" ∧ value = t := by
  split
  · next hempty =>
    rw [String.isEmpty_iff] at hempty
    apply iff_of_false (by simp)
    rintro ⟨hne, rfl⟩
    exact hne hempty
  · next hempty =>
    rw [String.isEmpty_iff] at hempty
    rw [Except.ok.injEq]
    constructor
    · rintro rfl
      exact ⟨hempty, rfl⟩
    · exact And.right

theorem JwtTenantResolver.extractClaim_ok_iff (resolver : JwtTenantResolver) (user : UserContext)
    (t : String) :
    resolver.extractClaim user = .ok t ↔ t ≠ "" ∧
      (user.metadata.get resolver.claimName = some (.string t) ∨
        user.metadata.get resolver.claimName = some (.array [.string t])) := by
  unfold extractClaim
  split
  · next value hvalue =>
    rw [nonempty_ok_iff]
    simp [hvalue]
  · next value hvalue =>
    rw [nonempty_ok_iff]
    simp [hvalue]
  · next value hstring harray hvalue =>
    apply iff_of_false (by simp)
    rw [hvalue, Option.some_inj, Option.some_inj]
    rintro ⟨-, h | h⟩
    · exact hstring t h
    · exact harray t h
  · next hnone => simp [hnone]

namespace TenantMembership

theorem strings_string {t : String} (hne : t ≠ "") : strings (.string t) = [t] := by
  simp [strings, hne]

theorem strings_singleton {t : String} (hne : t ≠ "") : strings (.array [.string t]) = [t] := by
  simp [strings, Json.asStr, hne]

theorem tenantsOf_new {c : String} {user : UserContext} {value : Json}
    (h : user.metadata.get c = some value) : (new c).tenantsOf user = strings value := by
  simp [tenantsOf, new, h]

section Fallback

variable {c d : String} {user : UserContext} (hd : user.metadata.get d = none)

include hd

theorem tenantsOf_fallback_string {t : String} (hc : user.metadata.get c = some (.string t))
    (hne : t ≠ "") : ((new d).withSingleTenantClaim c).tenantsOf user = [t] := by
  simp [tenantsOf, new, withSingleTenantClaim, hd, hc, hne]

theorem tenantsOf_fallback_array {items : List Json}
    (hc : user.metadata.get c = some (.array items)) :
    ((new d).withSingleTenantClaim c).tenantsOf user = [] := by
  simp [tenantsOf, new, withSingleTenantClaim, hd, hc]

end Fallback

end TenantMembership

/-- The tenant a verified token selects is the one tenant of its membership under the
same claim, and also under that claim as single-tenant claim if the claim is a string.
In an array of one string the single-tenant claim names no tenant. -/
theorem claim_readers_agree (user : UserContext) (c t : String)
    (h : JwtTenantResolver.extractClaim ⟨c⟩ user = .ok t) :
    (TenantMembership.new c).tenantsOf user = [t] ∧
    (TenantMembership.new c).isMember user t = true ∧
    ∀ d, user.metadata.get d = none →
      let fallback := (TenantMembership.new d).withSingleTenantClaim c
      (user.metadata.get c = some (.string t) ∧ fallback.tenantsOf user = [t] ∧
        fallback.isMember user t = true) ∨
      (user.metadata.get c = some (.array [.string t]) ∧ fallback.tenantsOf user = []) := by
  obtain ⟨hne, hvalue⟩ := (JwtTenantResolver.extractClaim_ok_iff ⟨c⟩ user t).mp h
  have hnew : (TenantMembership.new c).tenantsOf user = [t] := by
    rcases hvalue with hvalue | hvalue
    · rw [TenantMembership.tenantsOf_new hvalue, TenantMembership.strings_string hne]
    · rw [TenantMembership.tenantsOf_new hvalue, TenantMembership.strings_singleton hne]
  refine ⟨hnew, ?_, ?_⟩
  · rw [TenantMembership.isMember_iff, hnew, List.mem_singleton]
  · intro d hd fallback
    rcases hvalue with hvalue | hvalue
    · have hfallback := TenantMembership.tenantsOf_fallback_string hd hvalue hne
      refine .inl ⟨hvalue, hfallback, ?_⟩
      rw [TenantMembership.isMember_iff, hfallback, List.mem_singleton]
    · exact .inr ⟨hvalue, TenantMembership.tenantsOf_fallback_array hd hvalue⟩

def tenantIdClaim (value : Json) : UserContext := ⟨.object [("tenant_id", value)]⟩

theorem claim_readers_agree_string :
    ((TenantMembership.new "tenants").withSingleTenantClaim "tenant_id").isMember
      (tenantIdClaim (.string "t-1")) "t-1" = true := by
  have h := (claim_readers_agree (tenantIdClaim (.string "t-1")) "tenant_id" "t-1" rfl).2.2
    "tenants" rfl
  rcases h with ⟨-, -, hmember⟩ | ⟨harray, -⟩
  · exact hmember
  · cases harray

/-- The resolver selects `t-1`, of which the fallback reader of the same claim then
makes no member. -/
theorem array_claim_not_in_fallback :
    let user := tenantIdClaim (.array [.string "t-1"])
    let fallback := (TenantMembership.new "tenants").withSingleTenantClaim "tenant_id"
    JwtTenantResolver.extractClaim ⟨"tenant_id"⟩ user = .ok "t-1" ∧
      user.metadata.get "tenants" = none ∧ fallback.tenantsOf user = [] ∧
      fallback.isMember user "t-1" = false :=
  ⟨rfl, rfl, rfl, rfl⟩

end ArmatureTenancy

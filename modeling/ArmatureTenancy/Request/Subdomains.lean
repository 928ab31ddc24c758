import ArmatureTenancy.Request.Resolver
import ArmatureTenancy.Foundations.Texts

/-!
# Which hosts name a tenant

`extract_subdomain` cuts the host at its first colon, strips the base domain with
a dot in front of it, and rejects what is empty or has a dot of its own. For a base
domain without a colon this accepts exactly the direct children of the base domain,
and the label is read off the host in one way only. The resolver looks up nothing
but such labels.
-/

namespace ArmatureTenancy

open Foundations

/-- `host` is the domain `domain`, with or without a port. -/
def HostOf (domain host : String) : Prop := host = domain ∨ ∃ port, host = domain ++ ":" ++ port

/-- `host` is the domain one label `s` below `base`, with or without a port. -/
def DirectChild (base s host : String) : Prop :=
  s ≠ "" ∧ '.' ∉ s.toList ∧ ':' ∉ s.toList ∧ HostOf (s ++ "." ++ base) host

/-- Domains that merely resemble those below `base`. With more text behind it, `base`
is one of them unless the whole ends in `.base` again, as `a.a.a` does for `a.a`. -/
inductive LookAlike (base : String) : String → Prop
  | base : LookAlike base base
  | deeper (w : String) : '.' ∈ w.toList → LookAlike base (w ++ "." ++ base)
  | glued (w : String) : ¬ ['.'] <:+ w.toList → LookAlike base (w ++ base)
  | suffixed (w ending : String) : ending ≠ "" → LookAlike base (w ++ "." ++ base ++ ending)
  | continued (ending : String) : ¬ '.' :: base.toList <:+ (base ++ ending).toList →
      LookAlike base (base ++ ending)

theorem stripSuffix_eq_some_iff {s ending rest : String} :
    stripSuffix s ending = some rest ↔ s = rest ++ ending := by
  unfold stripSuffix
  rw [← String.toList_inj, String.toList_append]
  split
  · next hends =>
    obtain ⟨front, hfront⟩ := List.isSuffixOf_iff_suffix.mp hends
    rw [← hfront, List.length_append, Nat.add_sub_cancel, List.take_left, Option.some_inj,
      ← String.toList_inj, String.toList_ofList, List.append_left_inj]
  · next hends =>
    apply iff_of_false (by simp)
    intro h
    exact hends (List.isSuffixOf_iff_suffix.mpr ⟨rest.toList, h.symm⟩)

theorem hostOf_iff {domain host : String} :
    HostOf domain host ↔
      host.toList = domain.toList ∨ ∃ v, host.toList = domain.toList ++ ':' :: v := by
  unfold HostOf
  rw [← String.toList_inj]
  refine or_congr_right ⟨?_, ?_⟩
  · rintro ⟨port, rfl⟩
    exact ⟨port.toList, by simp⟩
  · rintro ⟨v, h⟩
    exact ⟨String.ofList v, by simp [← String.toList_inj, h]⟩

theorem cut_eq_iff {domain host : String} :
    String.ofList (host.toList.takeWhile (· ≠ ':')) = domain ↔
      ':' ∉ domain.toList ∧ HostOf domain host := by
  rw [← String.toList_inj, String.toList_ofList, takeWhile_ne_eq_iff, hostOf_iff]

theorem HostOf.unique {domain domain' host : String} (h : HostOf domain host)
    (h' : HostOf domain' host) (hcolon : ':' ∉ domain.toList) (hcolon' : ':' ∉ domain'.toList) :
    domain = domain' := by
  rw [← cut_eq_iff.mpr ⟨hcolon, h⟩, cut_eq_iff.mpr ⟨hcolon', h'⟩]

theorem colon_notMem_child {base s : String} (hbase : ':' ∉ base.toList) :
    ':' ∉ (s ++ "." ++ base).toList ↔ ':' ∉ s.toList := by
  simp [hbase]

theorem SubdomainTenantResolver.extractSubdomain_eq_filter (resolver : SubdomainTenantResolver)
    (host : String) :
    resolver.extractSubdomain host =
      (stripSuffix (String.ofList (host.toList.takeWhile (· ≠ ':')))
        ("." ++ resolver.baseDomain)).filter fun s => !s.isEmpty && !s.toList.contains '.' := by
  simp only [extractSubdomain]
  cases stripSuffix _ _ <;> rfl

theorem SubdomainTenantResolver.extractSubdomain_eq_some_iff (resolver : SubdomainTenantResolver)
    (hbase : ':' ∉ resolver.baseDomain.toList) (host s : String) :
    resolver.extractSubdomain host = some s ↔ DirectChild resolver.baseDomain s host := by
  have hlabel : (!s.isEmpty && !s.toList.contains '.') = true ↔ s ≠ "" ∧ '.' ∉ s.toList := by
    simp
  rw [resolver.extractSubdomain_eq_filter, Option.filter_eq_some_iff, hlabel,
    stripSuffix_eq_some_iff, ← String.append_assoc, cut_eq_iff, colon_notMem_child hbase]
  constructor
  · rintro ⟨⟨hcolon, hhost⟩, hne, hdot⟩
    exact ⟨hne, hdot, hcolon, hhost⟩
  · rintro ⟨hne, hdot, hcolon, hhost⟩
    exact ⟨⟨hcolon, hhost⟩, hne, hdot⟩

theorem DirectChild.unique {base s s' host : String} (hbase : ':' ∉ base.toList)
    (h : DirectChild base s host) (h' : DirectChild base s' host) : s = s' := by
  have hdomain := h.2.2.2.unique h'.2.2.2 ((colon_notMem_child hbase).mpr h.2.2.1)
    ((colon_notMem_child hbase).mpr h'.2.2.1)
  simpa using hdomain

theorem label_length_le {s base w rest : List Char} (hdot : '.' ∉ s)
    (h : s ++ '.' :: base = w ++ '.' :: rest) : s.length ≤ w.length := by
  by_contra hlong
  have hmem : '.' ∈ s := by
    have hget := congrArg (·[w.length]?) h
    simp only [List.getElem?_append_left (Nat.lt_of_not_le hlong)] at hget
    exact List.mem_of_getElem? (hget.trans (by simp))
  exact hdot hmem

theorem LookAlike.not_child {base domain s : String} (h : LookAlike base domain)
    (hdot : '.' ∉ s.toList) : domain ≠ s ++ "." ++ base := by
  intro heq
  cases h with
  | base =>
    have hlength := congrArg String.length heq
    simp only [String.length_append] at hlength
    have hdotLength : (".": String).length = 1 := rfl
    omega
  | deeper w hw =>
    have hws : w = s := by simpa using heq
    exact hdot (hws ▸ hw)
  | glued w hw =>
    have hws : w = s ++ "." := by simpa using heq
    exact hw ⟨s.toList, by simp [hws]⟩
  | suffixed w ending hending =>
    rw [← String.toList_inj] at heq
    simp only [String.toList_append, List.append_assoc] at heq
    have hlength := label_length_le hdot heq.symm
    have hsum := congrArg List.length heq
    have hpositive : 0 < ending.toList.length := by
      simpa [List.length_pos_iff] using hending
    simp only [List.length_append] at hsum
    omega
  | continued ending hends =>
    rw [heq] at hends
    exact hends ⟨s.toList, by simp⟩

theorem LookAlike.not_directChild {base domain host s : String} (hbase : ':' ∉ base.toList)
    (h : LookAlike base domain) (hcolon : ':' ∉ domain.toList) (hhost : HostOf domain host) :
    ¬ DirectChild base s host := by
  rintro ⟨-, hdot, hlabel, hchild⟩
  exact h.not_child hdot (hhost.unique hchild hcolon ((colon_notMem_child hbase).mpr hlabel))

section Lookups

variable {H X B C σ : Type} [HeaderMap H]
  {env : Environment C σ TenantStoreCall TenantStoreCall.Answer} {st st' : σ}
  {log : List (Exchange TenantStoreCall TenantStoreCall.Answer)}
  {result : Except TenantError Tenant}

theorem SubdomainTenantResolver.subdomain_ok_iff (resolver : SubdomainTenantResolver)
    (request : HttpRequest H X B) (s : String) :
    resolver.subdomain request = .ok s ↔
      ∃ host, HeaderMap.get request.headers "host" = some host ∧
        resolver.extractSubdomain host = some s := by
  unfold subdomain
  cases HeaderMap.get request.headers "host" with
  | none => simp
  | some host => cases hs : resolver.extractSubdomain host <;> simp [hs]

/-- Every lookup is of the label of which the host is the direct child. -/
theorem SubdomainTenantResolver.resolve_calls (resolver : SubdomainTenantResolver)
    (hbase : ':' ∉ resolver.baseDomain.toList) {request : HttpRequest H X B}
    (h : (resolver.resolve request).run.Runs env st log result st') :
    ∀ x ∈ log, ∃ host s, HeaderMap.get request.headers "host" = some host ∧
      DirectChild resolver.baseDomain s host ∧ x.fst = .findByName s := by
  rcases calls_resolveBy h with ⟨e, -, rfl, -⟩ | ⟨s, answer, hkey, rfl, -⟩
  · simp
  · intro x hx
    obtain ⟨host, hhost, hextract⟩ := (resolver.subdomain_ok_iff request s).mp hkey
    rw [List.mem_singleton.mp hx]
    exact ⟨host, s, hhost, (resolver.extractSubdomain_eq_some_iff hbase host s).mp hextract, rfl⟩

/-- The resolver reads off a host exactly the label of which it is the direct child,
in one way only and regardless of a port. It looks up such labels and nothing else, so
no look-alike of a domain below the base domain reaches the store. -/
theorem subdomains_are_direct_children (resolver : SubdomainTenantResolver)
    (hbase : ':' ∉ resolver.baseDomain.toList) :
    (∀ host s, resolver.extractSubdomain host = some s ↔
      DirectChild resolver.baseDomain s host) ∧
    (∀ host s s', DirectChild resolver.baseDomain s host → DirectChild resolver.baseDomain s' host →
      s = s') ∧
    (∀ host s, resolver.extractSubdomain host = some s →
      ∀ host', HostOf (s ++ "." ++ resolver.baseDomain) host' →
        resolver.extractSubdomain host' = some s) ∧
    (∀ (env : Environment C σ TenantStoreCall TenantStoreCall.Answer) (request : HttpRequest H X B)
      st log result st', (resolver.resolve request).run.Runs env st log result st' →
      (∀ x ∈ log, ∃ host s, HeaderMap.get request.headers "host" = some host ∧
        DirectChild resolver.baseDomain s host ∧ x.fst = .findByName s) ∧
      (∀ domain host, LookAlike resolver.baseDomain domain → ':' ∉ domain.toList →
        HostOf domain host → HeaderMap.get request.headers "host" = some host → log = [])) := by
  refine ⟨resolver.extractSubdomain_eq_some_iff hbase, ?_, ?_, ?_⟩
  · intro host s s' h h'
    exact h.unique hbase h'
  · intro host s hextract host' hhost'
    obtain ⟨hne, hdot, hcolon, -⟩ :=
      (resolver.extractSubdomain_eq_some_iff hbase host s).mp hextract
    exact (resolver.extractSubdomain_eq_some_iff hbase host' s).mpr ⟨hne, hdot, hcolon, hhost'⟩
  · intro env request st log result st' h
    refine ⟨resolver.resolve_calls hbase h, ?_⟩
    intro domain host hlike hcolon hhost hget
    apply List.eq_nil_iff_forall_not_mem.mpr
    intro x hx
    obtain ⟨host', s, hget', hchild, -⟩ := resolver.resolve_calls hbase h x hx
    rw [hget, Option.some_inj] at hget'
    subst hget'
    exact hlike.not_directChild hbase hcolon hhost hchild

theorem subdomains_are_direct_children_acme :
    SubdomainTenantResolver.extractSubdomain ⟨"example.com"⟩ "acme.example.com:8080" =
      some "acme" := by
  have h := (@subdomains_are_direct_children HeaderList ContextSlots Unit Unit Unit _
    ⟨"example.com"⟩ (by decide)).1
  exact (h _ _).mpr ⟨by decide, by decide, by decide, .inr ⟨"8080", by decide⟩⟩

end Lookups

/-- The base domain's text repeated, without the dot, and behind the port separator. -/
example :
    let resolver : SubdomainTenantResolver := ⟨"example.com"⟩
    resolver.extractSubdomain "acme.example.com.example.com" = none ∧
      resolver.extractSubdomain "evilexample.com" = none ∧
      resolver.extractSubdomain "evil.com:.example.com" = none := by
  decide

end ArmatureTenancy

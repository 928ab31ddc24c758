import ArmatureTenancy.Request.Middleware

/-!
# Client-supplied internal headers

What is in a request is the list of its headers, its extensions and the rest of it;
resolvers and the chain are functions of that. Removing the internal headers name by
name leaves exactly the entries with other names, so two requests that differ in
internal headers only are handled alike, and other headers arrive as they were sent.
-/

namespace ArmatureTenancy

open Foundations

def HasInternalPrefix (name : String) : Prop :=
  bytes internalTenantHeaderPrefix <+: (bytes name).map toAsciiLowercase

instance (name : String) : Decidable (HasInternalPrefix name) :=
  inferInstanceAs (Decidable (_ <+: _))

theorem isInternalTenantHeader_iff (name : String) :
    isInternalTenantHeader name = true ↔ HasInternalPrefix name := by
  have hlower : (bytes internalTenantHeaderPrefix).map toAsciiLowercase =
      bytes internalTenantHeaderPrefix := by decide
  simp only [isInternalTenantHeader, eqIgnoreAsciiCase, HasInternalPrefix, hlower,
    Bool.and_eq_true, decide_eq_true_eq, beq_iff_eq]
  constructor
  · rintro ⟨-, heq⟩
    rw [← heq, List.map_take]
    exact List.take_prefix _ _
  · intro hprefix
    refine ⟨?_, ?_⟩
    · simpa using hprefix.length_le
    · rw [List.map_take]
      exact (List.prefix_iff_eq_take.mp hprefix).symm

theorem hasInternalPrefix_congr {a b : String} (h : eqIgnoreAsciiCase (bytes a) (bytes b) = true) :
    HasInternalPrefix a ↔ HasInternalPrefix b := by
  simp only [eqIgnoreAsciiCase, beq_iff_eq] at h
  rw [HasInternalPrefix, HasInternalPrefix, h]

/-- A header map is seen as the list of its entries: `names` lists every stored
name, and `remove_all` removes the entries whose names are equal up to case. -/
class HeaderEntries (H : Type) [HeaderMap H] where
  entries : H → List (String × String)
  mem_names : ∀ headers name,
    name ∈ HeaderMap.names headers ↔ name ∈ (entries headers).map Prod.fst
  entries_removeAll : ∀ headers name, entries (HeaderMap.removeAll headers name) =
    (entries headers).filter fun header => !eqIgnoreAsciiCase (bytes header.1) (bytes name)

section Content

variable {H X B : Type} [HeaderMap H] [HeaderEntries H]

def HttpRequest.content (request : HttpRequest H X B) : HttpRequest HeaderList X B :=
  ⟨HeaderEntries.entries request.headers, request.extensions, request.rest⟩

def legitimate (request : HttpRequest HeaderList X B) : HttpRequest HeaderList X B :=
  { request with headers := request.headers.filter fun header => ¬ HasInternalPrefix header.1 }

theorem entries_foldl_removeAll (names : List String) (headers : H) :
    HeaderEntries.entries (names.foldl HeaderMap.removeAll headers) =
      (HeaderEntries.entries headers).filter fun header =>
        names.all fun name => !eqIgnoreAsciiCase (bytes header.1) (bytes name) := by
  induction names generalizing headers with
  | nil => simp
  | cons name names ih =>
    rw [List.foldl_cons, ih, HeaderEntries.entries_removeAll, List.filter_filter]
    simp only [List.all_cons, Bool.and_comm]

theorem content_stripIncomingTenantHeaders (request : HttpRequest H X B) :
    (stripIncomingTenantHeaders request).content = legitimate request.content := by
  simp only [stripIncomingTenantHeaders, HttpRequest.content, legitimate, HttpRequest.mk.injEq,
    and_true]
  rw [entries_foldl_removeAll]
  apply List.filter_congr
  intro header hheader
  rw [Bool.eq_iff_iff, List.all_eq_true]
  simp only [List.mem_filter, HeaderEntries.mem_names, isInternalTenantHeader_iff,
    Bool.not_eq_true', decide_eq_true_eq]
  constructor
  · intro hall hinternal
    have hself := hall header.1 ⟨List.mem_map_of_mem hheader, hinternal⟩
    simp [eqIgnoreAsciiCase] at hself
  · rintro hlegitimate name ⟨-, hinternal⟩
    rw [← Bool.not_eq_true]
    intro heq
    exact hlegitimate ((hasInternalPrefix_congr heq).mpr hinternal)

variable {ε P α : Type} (resolver : HttpRequest HeaderList X B → Except TenantError Tenant)
  (chain : HttpRequest HeaderList X B → Except (Error ε) P)

/-- Handled by a resolver and a chain that are functions of the request: the calls
that are made, and the outcome. -/
def served : MiddlewareProgram H X B ε P α → List (MiddlewareCall HeaderList X B) × α
  | .pure a => ([], a)
  | .call (.resolve request) rest =>
    let later := served (rest (resolver request.content))
    (.resolve request.content :: later.1, later.2)
  | .call (.next request) rest =>
    let later := served (rest (chain request.content))
    (.next request.content :: later.1, later.2)

def MiddlewareCall.request : MiddlewareCall H X B → HttpRequest H X B
  | .resolve request => request
  | .next request => request

namespace TenantMiddleware

variable {mw : TenantMiddleware} {request request' : HttpRequest H X B}

omit [HeaderMap H] [HeaderEntries H] in
theorem contextFor_congr [TypedStorage X UserContext]
    (same : request.extensions = request'.extensions) (tenant : Tenant) :
    (mw.contextFor request tenant : Except (Error ε) TenantContext) =
      mw.contextFor request' tenant := by
  simp only [contextFor, HttpRequest.extension, same]

variable [TypedStorage X TenantContext]

theorem content_stripped (request : HttpRequest H X B) :
    (stripped request).content = (legitimate request.content).withoutExtension TenantContext := by
  rw [← content_stripIncomingTenantHeaders]
  rfl

variable [TypedStorage X UserContext]

/-- After the resolver's answer, requests with the same content are handled alike. -/
theorem served_proceed_congr (same : request.content = request'.content)
    (answer : Except TenantError Tenant) :
    served resolver chain (mw.proceed request answer : MiddlewareM H X B ε P P).run =
      served resolver chain (mw.proceed request' answer : MiddlewareM H X B ε P P).run := by
  obtain ⟨hheaders, hextensions, hrest⟩ := HttpRequest.mk.inj same
  have hnext {r r' : HttpRequest H X B} (hsame : r.content = r'.content) :
      served resolver chain (.call (.next r) .pure : MiddlewareProgram H X B ε P _) =
        served resolver chain (.call (.next r') .pure) := by
    simp only [served, hsame]
  cases answer with
  | error e =>
    simp only [proceed_error]
    split
    · apply hnext
      simp only [HttpRequest.content, HttpRequest.withoutExtension, hheaders, hextensions, hrest]
    · rfl
  | ok tenant =>
    have hcontext : (mw.contextFor request tenant : Except (Error ε) TenantContext) =
        mw.contextFor request' tenant := contextFor_congr hextensions tenant
    cases hgranted : (mw.contextFor request tenant : Except (Error ε) TenantContext) with
    | error e =>
      rw [proceed_refused hgranted, proceed_refused (hcontext.symm.trans hgranted)]
    | ok context =>
      rw [proceed_granted hgranted, proceed_granted (hcontext.symm.trans hgranted)]
      apply hnext
      simp only [HttpRequest.content, HttpRequest.withExtension, hheaders, hextensions, hrest]

theorem headers_served_proceed {answer : Except TenantError Tenant}
    {call : MiddlewareCall HeaderList X B}
    (hcall : call ∈ (served resolver chain
      (mw.proceed request answer : MiddlewareM H X B ε P P).run).1) :
    call.request.headers = request.content.headers := by
  cases answer with
  | error e =>
    rw [proceed_error] at hcall
    split at hcall
    · rw [List.mem_singleton.mp hcall]
      rfl
    · cases hcall
  | ok tenant =>
    cases hgranted : (mw.contextFor request tenant : Except (Error ε) TenantContext) with
    | error e =>
      rw [proceed_refused hgranted] at hcall
      cases hcall
    | ok context =>
      rw [proceed_granted hgranted] at hcall
      rw [List.mem_singleton.mp hcall]
      rfl

end TenantMiddleware

/-- Under every configuration, with every resolver and every chain, two requests
that agree but for internal headers lead to the same calls and the same outcome;
and the resolver and the chain are called with the other headers as they came. -/
theorem spoofed_headers_without_influence [TypedStorage X TenantContext]
    [TypedStorage X UserContext] (mw : TenantMiddleware) {request request' : HttpRequest H X B}
    (same : legitimate request.content = legitimate request'.content) :
    served resolver chain (mw.handle request : MiddlewareM H X B ε P P).run =
        served resolver chain (mw.handle request' : MiddlewareM H X B ε P P).run ∧
      ∀ call ∈ (served resolver chain (mw.handle request : MiddlewareM H X B ε P P).run).1,
        call.request.headers =
          request.content.headers.filter fun header => ¬ HasInternalPrefix header.1 := by
  have hstripped : (TenantMiddleware.stripped request).content =
      (TenantMiddleware.stripped request').content := by
    rw [TenantMiddleware.content_stripped, TenantMiddleware.content_stripped, same]
  have hheaders : (TenantMiddleware.stripped request).content.headers =
      request.content.headers.filter fun header => ¬ HasInternalPrefix header.1 := by
    rw [TenantMiddleware.content_stripped]
    rfl
  constructor
  · simp only [TenantMiddleware.handle_run, served, hstripped]
    rw [TenantMiddleware.served_proceed_congr resolver chain hstripped]
  · intro call hcall
    rw [TenantMiddleware.handle_run] at hcall
    rcases List.mem_cons.mp hcall with rfl | hcall
    · exact hheaders
    · exact (TenantMiddleware.headers_served_proceed resolver chain hcall).trans hheaders

end Content

structure HeaderEntryList where
  entries : List (String × String)

instance : HeaderMap HeaderEntryList where
  names headers := headers.entries.map Prod.fst
  get headers name := (headers.entries.find? fun header =>
    eqIgnoreAsciiCase (bytes header.1) (bytes name)).map Prod.snd
  removeAll headers name := ⟨headers.entries.filter fun header =>
    !eqIgnoreAsciiCase (bytes header.1) (bytes name)⟩

instance : HeaderEntries HeaderEntryList where
  entries := HeaderEntryList.entries
  mem_names _ _ := Iff.rfl
  entries_removeAll _ _ := rfl

def memberRequestWith (headers : List (String × String)) :
    HttpRequest HeaderEntryList ContextSlots Unit where
  headers := ⟨headers⟩
  extensions := ⟨none, some ⟨.object [("tenants", .array [.string "t-1"])]⟩⟩
  rest := ()

def spoofedHeaders : List (String × String) :=
  [("__Tenant_Id", "t-2"), ("__tenan", "kept"), ("__TENANT", ""), ("__tenant_id", "t-3")]

theorem spoofed_headers_without_influence_member :
    let resolver : HttpRequest HeaderList ContextSlots Unit → Except TenantError Tenant :=
      fun request => match request.headers with
        | [header] => .ok (Tenant.new "t-1" header.2)
        | _ => .error .inactive
    let chain : HttpRequest HeaderList ContextSlots Unit → Except (Error Unit) Unit :=
      fun _ => .ok ()
    let handled := fun request => served resolver chain
      (TenantMiddleware.new.handle request : MiddlewareM _ _ _ Unit Unit Unit).run
    handled (memberRequestWith spoofedHeaders) = handled (memberRequestWith [("__tenan", "kept")]) ∧
      (handled (memberRequestWith spoofedHeaders)).1.length = 2 ∧
      ∀ call ∈ (handled (memberRequestWith spoofedHeaders)).1,
        call.request.headers = [("__tenan", "kept")] := by
  intro resolver chain handled
  have same : legitimate (memberRequestWith spoofedHeaders).content =
      legitimate (memberRequestWith [("__tenan", "kept")]).content := by
    have hheaders : (spoofedHeaders.filter fun header => ¬ HasInternalPrefix header.1) =
        [("__tenan", "kept")].filter fun header => ¬ HasInternalPrefix header.1 := by decide
    simp only [legitimate, HttpRequest.content, memberRequestWith, HeaderEntries.entries, hheaders]
  obtain ⟨hhandled, hheaders⟩ :=
    spoofed_headers_without_influence resolver chain TenantMiddleware.new same
  refine ⟨hhandled, by decide, ?_⟩
  intro call hcall
  exact (hheaders call hcall).trans (by decide)

end ArmatureTenancy

import ArmatureTenancy.Schema.SchemaManager
import ArmatureTenancy.Schema.Identifiers
import ArmatureTenancy.Foundations.Serializability

/-!
# Queries in a tenant's schema

`TenantQuery` sets the search path of a connection and then runs the caller's
statements on it. Connections are shared between tenants one call after the other,
and calls on different connections interleave. The server behind the provider is a
parameter, seen through the search path of every connection and the contents of every
schema; what it has to do for the names that pass validation is laid down in its laws.
-/

namespace ArmatureTenancy

open Foundations

variable {Q : Type} {A : Q → Type} {T : Type}

/-- What is called on a connection: the provider's methods and the statements of a query. -/
inductive ConnectionCall (Q : Type) where
  | provider : SchemaCall → ConnectionCall Q
  | statement : Q → ConnectionCall Q

abbrev ConnectionCall.Answer (A : Q → Type) : ConnectionCall Q → Type
  | .provider e => e.Answer
  | .statement q => A q

abbrev ConnectionM (A : Q → Type) :=
  ExceptT TenantError (Program (ConnectionCall Q) (ConnectionCall.Answer A))

namespace ConnectionM

def ofSchemaM {α : Type} (x : SchemaM α) : ConnectionM A α :=
  .mk (x.run.translate .provider fun _ answer => answer)

def ofStatements {α : Type} (f : Program Q A (Except TenantError α)) : ConnectionM A α :=
  .mk (f.translate .statement fun _ answer => answer)

end ConnectionM

structure TenantQuery where
  tenant : Tenant

def TenantQuery.execute (query : TenantQuery) (f : Program Q A (Except TenantError T)) :
    ConnectionM A T := do
  ConnectionM.ofSchemaM (SchemaManager.setSearchPath query.tenant)
  ConnectionM.ofStatements f

inductive SchemaWork (A : Q → Type) (T : Type) where
  | manage : SchemaOp → SchemaWork A T
  | query : Program Q A (Except TenantError T) → SchemaWork A T

/-- Work done for a tenant on a connection, which the task borrows until it is done. -/
structure SchemaTask (Conn : Type) (A : Q → Type) (T : Type) where
  tenant : Tenant
  conn : Conn
  work : SchemaWork A T

abbrev SchemaResult (T : Type) := Except TenantError (Option Bool ⊕ T)

variable {Conn : Type}

abbrev ServerProgram (Conn : Type) (A : Q → Type) (T : Type) :=
  Program (Conn × ConnectionCall Q) (fun e => e.2.Answer A) (SchemaResult T)

namespace SchemaTask

def code (task : SchemaTask Conn A T) : ConnectionM A (Option Bool ⊕ T) :=
  match task.work with
  | .manage op => Sum.inl <$> ConnectionM.ofSchemaM (op.code task.tenant)
  | .query f => Sum.inr <$> (TenantQuery.mk task.tenant).execute f

def program (task : SchemaTask Conn A T) : ServerProgram Conn A T :=
  task.code.run.translate (Prod.mk task.conn) fun _ answer => answer

end SchemaTask

inductive SchemaAction (Q : Type) where
  | schemaExists : SchemaAction Q
  | createSchema : SchemaAction Q
  | dropSchema : SchemaAction Q
  | statement : Q → SchemaAction Q

namespace SchemaAction

abbrev Answer (A : Q → Type) : SchemaAction Q → Type
  | .schemaExists => Except TenantError Bool
  | .createSchema => Except TenantError Unit
  | .dropSchema => Except TenantError Unit
  | .statement q => A q

/-- The call on a connection that performs the action, for the schema of this name. -/
def on (conn : Conn) (name : String) : SchemaAction Q → Conn × ConnectionCall Q
  | .schemaExists => (conn, .provider (.schemaExists name))
  | .createSchema => (conn, .provider (.createSchema name))
  | .dropSchema => (conn, .provider (.dropSchema name))
  | .statement q => (conn, .statement q)

def back (conn : Conn) (name : String) :
    (e : SchemaAction Q) → (e.on conn name).2.Answer A → e.Answer A
  | .schemaExists, answer => answer
  | .createSchema, answer => answer
  | .dropSchema, answer => answer
  | .statement _, answer => answer

def IsStatement : SchemaAction Q → Prop
  | .statement _ => True
  | _ => False

end SchemaAction

variable {S K D C C' : Type} [DecidableEq K]

/-- Each call says which schema it is for. -/
def addressed (engine : Environment C' D (SchemaAction Q) (SchemaAction.Answer A)) :
    Environment C' (K → D) (K × SchemaAction Q) (fun e => e.2.Answer A) :=
  fun c schemas e =>
    (engine c (schemas e.1) e.2).map fun x => (x.1, Function.update schemas e.1 x.2)

/-- A server behind a provider: its state in `S`, seen as the search path of each connection
and the contents of each schema, how it answers the calls on a connection, and what an action
does to the contents of one schema. With a valid name, `set_search_path` changes nothing but
the search path of its connection and, if it succeeds, sets it to the schema the name denotes;
the other methods act on the schema the name denotes. A statement acts on the schema in the
search path, which it leaves as it is. -/
structure SchemaServer (Conn S K D C C' : Type) (A : Q → Type) [DecidableEq K] where
  searchPath : S → Conn → K
  schemas : S → K → D
  denotes : String → K
  answer : Environment C S (Conn × ConnectionCall Q) (fun e => e.2.Answer A)
  engine : Environment C' D (SchemaAction Q) (SchemaAction.Answer A)
  sets : ∀ {c s conn name result s'}, isValidSchemaName name = true →
    answer c s (conn, .provider (.setSearchPath name)) = some (result, s') →
      schemas s' = schemas s ∧
        (∀ conn', conn' ≠ conn → searchPath s' conn' = searchPath s conn') ∧
        (result = .ok () → searchPath s' conn = denotes name)
  manages : ∀ {c s conn name s'} {e : SchemaAction Q} {result : (e.on conn name).2.Answer A},
    isValidSchemaName name = true → ¬ e.IsStatement →
      answer c s (e.on conn name) = some (result, s') → searchPath s' = searchPath s ∧
        ∃ c', addressed engine c' (schemas s) (denotes name, e) =
          some (e.back conn name result, schemas s')
  runs : ∀ {c s conn q result s'}, answer c s (conn, .statement q) = some (result, s') →
    searchPath s' = searchPath s ∧
      ∃ c', addressed engine c' (schemas s) (searchPath s conn, .statement q) =
        some (result, schemas s')

namespace SchemaWork

def actions : SchemaWork A T → Program (SchemaAction Q) (SchemaAction.Answer A) (SchemaResult T)
  | .manage .setSearchPath => .pure (.ok (.inl none))
  | .manage .schemaExists =>
    .call .schemaExists fun answer => .pure (answer.map fun found => .inl (some found))
  | .manage .createSchema => .call .createSchema fun answer => .pure (answer.map fun _ => .inl none)
  | .manage .dropSchema => .call .dropSchema fun answer => .pure (answer.map fun _ => .inl none)
  | .query f => (f.translate .statement fun _ answer => answer).bind fun r => .pure (r.map .inr)

def SetsPath : SchemaWork A T → Prop
  | .manage op => op = .setSearchPath
  | .query _ => True

instance : DecidablePred (SetsPath (A := A) (T := T)) := fun work =>
  match work with
  | .manage op => inferInstanceAs (Decidable (op = .setSearchPath))
  | .query _ => inferInstanceAs (Decidable True)

end SchemaWork

namespace ServerProgram

def perform (conn : Conn) (name : String)
    (p : Program (SchemaAction Q) (SchemaAction.Answer A) (SchemaResult T)) :
    ServerProgram Conn A T :=
  p.translate (SchemaAction.on conn name) (SchemaAction.back conn name)

def afterSetting (conn : Conn) (name : String)
    (p : Program (SchemaAction Q) (SchemaAction.Answer A) (SchemaResult T)) :
    ServerProgram Conn A T :=
  .call (conn, .provider (.setSearchPath name)) fun answer => match answer with
    | .error e => .pure (.error e)
    | .ok () => perform conn name p

end ServerProgram

namespace SchemaTask

open ServerProgram

variable {task : SchemaTask Conn A T} {name : String}

theorem program_none (h : task.tenant.schema = none) :
    task.program = .pure (.error (.invalid "Tenant has no schema configured")) := by
  obtain ⟨⟨_, _, _, _, _, schema, _, _⟩, conn, work⟩ := task
  obtain rfl : schema = none := h
  cases work with
  | manage op => cases op <;> rfl
  | query f => rfl

theorem perform_statements (conn : Conn) (name : String)
    (f : Program Q A (Except TenantError T)) :
    (Sum.inr <$> (ConnectionM.ofStatements f : ConnectionM A T)).run.translate (Prod.mk conn)
        (fun _ answer => answer) =
      (perform conn name (SchemaWork.query f).actions : ServerProgram Conn A T) := by
  induction f with
  | pure r => cases r <;> rfl
  | call q rest ih => exact Program.call_congr ih

theorem program_some (h : task.tenant.schema = some name) :
    task.program =
      if task.work.SetsPath then afterSetting task.conn name task.work.actions
      else perform task.conn name task.work.actions := by
  obtain ⟨⟨_, _, _, _, _, schema, _, _⟩, conn, work⟩ := task
  obtain rfl : schema = some name := h
  cases work with
  | manage op =>
    cases op <;>
      refine Program.call_congr fun answer => ?_ <;>
      cases answer <;> rfl
  | query f =>
    rw [if_pos (by trivial)]
    apply Program.call_congr
    intro answer
    cases answer with
    | error e => rfl
    | ok value => exact perform_statements conn name f

end SchemaTask

def ServerProgram.toSchema (k : K)
    (p : Program (SchemaAction Q) (SchemaAction.Answer A) (SchemaResult T)) :
    Program (K × SchemaAction Q) (fun e => e.2.Answer A) (SchemaResult T) :=
  p.translate (Prod.mk k) fun _ answer => answer

namespace SchemaTask

def schema (denotes : String → K) (task : SchemaTask Conn A T) : Option K :=
  task.tenant.schema.map denotes

/-- The task as it would be if every action could name its schema. -/
def addressed (denotes : String → K) (task : SchemaTask Conn A T) :
    Program (K × SchemaAction Q) (fun e => e.2.Answer A) (SchemaResult T) :=
  match task.schema denotes with
  | none => .pure (.error (.invalid "Tenant has no schema configured"))
  | some k => ServerProgram.toSchema k task.work.actions

end SchemaTask

section Systems

variable {ι : Type} (denotes : String → K) (tasks : ι → SchemaTask Conn A T)

abbrev ServerConfig (ι Conn S : Type) (A : Q → Type) (T : Type) :=
  Config ι S (Conn × ConnectionCall Q) (fun e => e.2.Answer A) (SchemaResult T)

abbrev AddressedConfig (ι K D : Type) (A : Q → Type) (T : Type) :=
  Config ι (K → D) (K × SchemaAction Q) (fun e => e.2.Answer A) (SchemaResult T)

omit [DecidableEq K] in
def schemaSystem (start : S) : ServerConfig ι Conn S A T where
  state := start
  history := []
  program := fun i => (tasks i).program

def addressedSystem (schemas : K → D) : AddressedConfig ι K D A T where
  state := schemas
  history := []
  program := fun i => (tasks i).addressed denotes

end Systems

section Simulation

variable {ι : Type} {tasks : ι → SchemaTask Conn A T} {server : SchemaServer Conn S K D C C' A}

open ServerProgram

/-- Where the search path is right, an action is the action addressed to its schema. -/
theorem SchemaServer.answer_on {c : C} {s s' : S} {conn : Conn} {name : String}
    {e : SchemaAction Q} {result : (e.on conn name).2.Answer A}
    (hvalid : isValidSchemaName name = true)
    (hpath : e.IsStatement → server.searchPath s conn = server.denotes name)
    (h : server.answer c s (e.on conn name) = some (result, s')) :
    server.searchPath s' = server.searchPath s ∧
      ∃ c', addressed server.engine c' (server.schemas s) (server.denotes name, e) =
        some (e.back conn name result, server.schemas s') := by
  cases e with
  | statement q =>
    rw [← hpath trivial]
    exact server.runs h
  | _ => exact server.manages hvalid id h

/-- How far a task is, and what its addressed form has left to do. -/
inductive TaskAt (task : SchemaTask Conn A T) (name : String) (k : K) (started : Prop) (path : K) :
    ServerProgram Conn A T →
    Program (K × SchemaAction Q) (fun e => e.2.Answer A) (SchemaResult T) → Prop
  | waiting (sets : task.work.SetsPath) (fresh : ¬ started) :
      TaskAt task name k started path (afterSetting task.conn name task.work.actions)
        (toSchema k task.work.actions)
  | failed (sets : task.work.SetsPath) (err : TenantError) :
      TaskAt task name k started path (.pure (.error err)) (toSchema k task.work.actions)
  | active (p : Program (SchemaAction Q) (SchemaAction.Answer A) (SchemaResult T))
      (there : p.Nodes (fun e _ => ¬ e.IsStatement) ∨ (started ∧ path = k)) :
      TaskAt task name k started path (perform task.conn name p) (toSchema k p)

namespace TaskAt

variable {task : SchemaTask Conn A T} {name : String} {k path path' : K} {started : Prop}
  {p : ServerProgram Conn A T}
  {own : Program (K × SchemaAction Q) (fun e => e.2.Answer A) (SchemaResult T)}

omit [DecidableEq K] in
theorem elsewhere (h : TaskAt task name k started path p own)
    (hpath : path' = path ∨ (started → p.Finished)) : TaskAt task name k started path' p own := by
  cases h with
  | waiting sets fresh => exact .waiting sets fresh
  | failed sets err => exact .failed sets err
  | active p there =>
    refine .active p ?_
    rcases there with hnodes | ⟨hstarted, hthere⟩
    · exact .inl hnodes
    · rcases hpath with rfl | hfinished
      · exact .inr ⟨hstarted, hthere⟩
      · cases p with
        | pure r => exact .inl trivial
        | call e rest => exact (hfinished hstarted).elim

omit [DecidableEq K] in
theorem call_cases {e : Conn × ConnectionCall Q} {rest : e.2.Answer A → ServerProgram Conn A T}
    (h : TaskAt task name k started path p own) (hp : p = .call e rest) :
    (task.work.SetsPath ∧ p = afterSetting task.conn name task.work.actions ∧
      own = toSchema k task.work.actions) ∨
    ∃ a next, p = perform task.conn name (.call a next) ∧ own = toSchema k (.call a next) ∧
      (a.IsStatement → path = k) ∧
      ((∀ answer, (next answer).Nodes fun e _ => ¬ e.IsStatement) ∨ path = k) := by
  cases h with
  | waiting sets fresh => exact .inl ⟨sets, rfl, rfl⟩
  | failed sets err => cases hp
  | active p there =>
    cases p with
    | pure r => cases hp
    | call a next =>
      refine .inr ⟨a, next, rfl, rfl, ?_, ?_⟩
      · rcases there with hnodes | hthere
        · exact fun h => absurd h hnodes.1
        · exact fun _ => hthere.2
      · exact there.imp And.right And.right

end TaskAt

/-- The addressed system has got as far as the tasks on their connections. -/
structure Addressing (server : SchemaServer Conn S K D C C' A) (tasks : ι → SchemaTask Conn A T)
    (cfg : ServerConfig ι Conn S A T) (own : AddressedConfig ι K D A T) : Prop where
  schemas : own.state = server.schemas cfg.state
  unconfigured : ∀ i, (tasks i).tenant.schema = none →
    cfg.program i = .pure (.error (.invalid "Tenant has no schema configured")) ∧
      own.program i = .pure (.error (.invalid "Tenant has no schema configured"))
  configured : ∀ i name, (tasks i).tenant.schema = some name →
    TaskAt (tasks i) name (server.denotes name) (cfg.Started i)
      (server.searchPath cfg.state (tasks i).conn) (cfg.program i) (own.program i)

theorem actions_nodes {work : SchemaWork A T} (h : ¬ work.SetsPath) :
    work.actions.Nodes fun e _ => ¬ e.IsStatement := by
  cases work with
  | query f => exact absurd trivial h
  | manage op =>
    cases op with
    | setSearchPath => exact absurd rfl h
    | _ => exact ⟨id, fun _ => trivial⟩

theorem Addressing.start (start : S) :
    Addressing server tasks (schemaSystem tasks start)
      (addressedSystem server.denotes tasks (server.schemas start)) where
  schemas := rfl
  unconfigured := by
    intro i h
    refine ⟨SchemaTask.program_none h, ?_⟩
    simp only [addressedSystem, SchemaTask.addressed, SchemaTask.schema, h, Option.map_none]
  configured := by
    intro i name h
    have hown : (addressedSystem server.denotes tasks (server.schemas start)).program i =
        toSchema (server.denotes name) (tasks i).work.actions := by
      simp only [addressedSystem, SchemaTask.addressed, SchemaTask.schema, h, Option.map_some]
    have hprogram : (schemaSystem tasks start).program i = _ := SchemaTask.program_some h
    rw [hown, hprogram]
    split
    · next sets => exact .waiting sets (by simp [Config.Started, schemaSystem])
    · next sets => exact .active _ (.inl (actions_nodes sets))

variable [DecidableEq ι]

theorem Addressing.others {cfg : ServerConfig ι Conn S A T} {own own' : AddressedConfig ι K D A T}
    (h : Addressing server tasks cfg own) {i : ι} {e : Conn × ConnectionCall Q}
    {answer : e.2.Answer A} {s : S} {p : ServerProgram Conn A T} {name : String}
    (hi : (tasks i).tenant.schema = some name)
    (hpath : ∀ conn, conn ≠ (tasks i).conn →
      server.searchPath s conn = server.searchPath cfg.state conn)
    (exclusive : ∀ j, (tasks j).conn = (tasks i).conn → cfg.Busy j → i = j)
    (hschemas : own'.state = server.schemas s)
    (hothers : ∀ j, j ≠ i → own'.program j = own.program j)
    (hmoved : TaskAt (tasks i) name (server.denotes name) True
      (server.searchPath s (tasks i).conn) p (own'.program i)) :
    Addressing server tasks (cfg.advance i e answer s p) own' where
  schemas := hschemas
  unconfigured := by
    intro j hj
    have hne : j ≠ i := by
      rintro rfl
      rw [hi] at hj
      cases hj
    rw [hothers j hne, cfg.program_advance _ _ _ _ hne]
    exact h.unconfigured j hj
  configured := by
    intro j name' hj
    by_cases hne : j = i
    · subst hne
      obtain rfl : name = name' := Option.some.inj (hi.symm.trans hj)
      have hstarted : (cfg.advance j e answer s p).Started j := List.mem_cons_self
      rw [cfg.program_advance_self, eq_true hstarted]
      exact hmoved
    · rw [hothers j hne, cfg.program_advance _ _ _ _ hne, cfg.started_advance _ _ _ _ hne]
      apply (h.configured j name' hj).elsewhere
      by_cases hconn : (tasks j).conn = (tasks i).conn
      · right
        intro hstarted
        by_contra hnot
        exact hne (exclusive j hconn ⟨hstarted, hnot⟩).symm
      · exact .inl (hpath _ hconn)

/-- A turn sets a search path, or is a turn of the addressed system. -/
theorem Addressing.step {cfg : ServerConfig ι Conn S A T} {own : AddressedConfig ι K D A T}
    (h : Addressing server tasks cfg own)
    (valid : ∀ i name, (tasks i).tenant.schema = some name → isValidSchemaName name = true)
    {turn : ι × C}
    (exclusive : ∀ j, (tasks j).conn = (tasks turn.1).conn → cfg.Busy j → turn.1 = j) :
    ∃ turns : List (ι × C'), (turns.map Prod.fst).Sublist [turn.1] ∧
      Addressing server tasks (cfg.step server.answer turn)
        (own.run (addressed server.engine) turns) := by
  rcases cfg.step_cases server.answer turn with heq | ⟨e, rest, answer, s, hp, hanswer, heq⟩
  · rw [heq]
    exact ⟨[], List.nil_sublist _, h⟩
  · rw [heq]
    cases hschema : (tasks turn.1).tenant.schema with
    | none =>
      rw [(h.unconfigured _ hschema).1] at hp
      cases hp
    | some name =>
      have hvalid := valid turn.1 name hschema
      rcases (h.configured _ name hschema).call_cases hp with
        ⟨sets, hshape, hown⟩ | ⟨a, next, hshape, hown, hpath, there⟩
      · rw [hshape] at hp
        cases hp
        obtain ⟨hschemas, helsewhere, hset⟩ := server.sets hvalid hanswer
        refine ⟨[], List.nil_sublist _, h.others hschema helsewhere exclusive
          (h.schemas.trans hschemas.symm) (fun _ _ => rfl) ?_⟩
        rw [Config.run_nil, hown]
        cases answer with
        | ok value => exact .active _ (.inr ⟨trivial, hset rfl⟩)
        | error err => exact .failed sets err
      · rw [hshape] at hp
        cases hp
        obtain ⟨hpaths, c', haddressed⟩ := server.answer_on hvalid hpath hanswer
        rw [← h.schemas] at haddressed
        have hcall : own.program turn.1 = .call (server.denotes name, a) fun answer =>
            toSchema (server.denotes name) (next answer) := hown
        have hstep : own.step (addressed server.engine) (turn.1, c') = _ :=
          own.step_call (addressed server.engine) hcall haddressed
        refine ⟨[(turn.1, c')], List.Sublist.refl _, ?_⟩
        rw [Config.run_cons, Config.run_nil, hstep]
        refine h.others hschema (fun conn _ => congrFun hpaths conn) exclusive rfl ?_ ?_
        · exact fun j hj => own.program_advance _ _ _ _ hj
        · rw [own.program_advance_self, hpaths]
          exact .active _ (there.imp (fun hnodes => hnodes _) fun hthere => ⟨trivial, hthere⟩)

theorem Addressing.run {cfg : ServerConfig ι Conn S A T} {own : AddressedConfig ι K D A T}
    (h : Addressing server tasks cfg own)
    (valid : ∀ i name, (tasks i).tenant.schema = some name → isValidSchemaName name = true)
    {schedule : List (ι × C)}
    (exclusive : ∀ conn,
      cfg.SerialWithin (fun i => (tasks i).conn = conn) server.answer schedule) :
    ∃ turns : List (ι × C'), (turns.map Prod.fst).Sublist (schedule.map Prod.fst) ∧
      Addressing server tasks (cfg.run server.answer schedule)
        (own.run (addressed server.engine) turns) := by
  induction schedule generalizing cfg own with
  | nil => exact ⟨[], List.Sublist.refl _, h⟩
  | cons turn schedule ih =>
    obtain ⟨first, hfirst, hstep⟩ := h.step valid fun j hconn => (exclusive _).1 rfl j hconn
    obtain ⟨later, hlater, hrun⟩ := ih hstep fun conn => (exclusive conn).2
    refine ⟨first ++ later, ?_, ?_⟩
    · rw [List.map_append]
      exact hfirst.append hlater
    · rw [Config.run_append]
      exact hrun

end Simulation
end ArmatureTenancy

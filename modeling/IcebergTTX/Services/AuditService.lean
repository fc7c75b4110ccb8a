import IcebergTTX.Services.JsonLines
import IcebergTTX.Services.RolePreview

/-!
# Audit events

{lit}`app/services/audit_service.py` and the sinks of {lit}`app/services/siem_service.py`: the
event that {lit}`emit` builds, the line that the audit logger writes for it, and what each sink
is sent.

Main results:

- Structure {lit}`AuditEvent` with {lit}`auditEvent`: an event and how it is built.
- Definition {lit}`AuditEvent.line`: the JSON line of an event, with sorted keys.
- Definition {lit}`SiemConfig.sinks`: the sinks that an event goes to.
-/

namespace IcebergTTX

/-! ## Events -/

/-- The characters of {lit}`_CONTROL_RE`. -/
def isControl (c : Char) : Bool :=
  c.toNat < 32 ∨ c.toNat = 127

/-- {lit}`_MAX_FIELD_LEN`. -/
def maxFieldLen : Nat := 512

/-- {lit}`_sanitize`, of a value that has been printed. -/
def sanitize (value : Option String) : Option String :=
  value.map fun text =>
    String.ofList ((text.toList.map fun c => if isControl c then ' ' else c).take maxFieldLen)

/-- What the request context keeps, as the request has it. -/
structure RequestContext where
  requestId : Option String := none
  sourceIp : Option String := none
  method : Option String := none
  path : Option String := none
deriving DecidableEq, Repr

/-- The attributes of an actor that {lit}`emit` looks for. -/
structure Actor where
  id : Option Nat
  email : Option String
  role : Option UserRole
  actualRole : Option UserRole
deriving DecidableEq, Repr

/-- The effective user of a request as an actor. -/
def User.actor (user : User) (viewRole viewTeam : Option String) : Actor :=
  let effective := applyRolePreview user viewRole viewTeam
  { id := some effective.id
    email := some user.email
    role := some effective.role
    actualRole := some effective.actualRole }

/-- The arguments of {lit}`emit`; a target's id as {lit}`str` prints it. -/
structure EmitArgs where
  action : String
  result : String := "success"
  actor : Option Actor := none
  actorId : Option Nat := none
  actorEmail : Option String := none
  actorRole : Option String := none
  targetType : Option String := none
  targetId : Option String := none
  reason : Option String := none
  severity : String := "info"
  securityRelevant : Bool := true
deriving DecidableEq, Repr

/-- One audit event. -/
structure AuditEvent where
  ts : String
  app : String
  version : String
  requestId : Option String
  sourceIp : Option String
  method : Option String
  path : Option String
  action : Option String
  result : String
  actorId : Option Nat
  actorEmail : Option String
  actorRole : Option String
  targetType : Option String
  targetId : Option String
  reason : Option String
  severity : String
  securityRelevant : Bool
deriving DecidableEq, Repr

/-- {lit}`APP_NAME`. -/
def appName : String := "iceberg-ttx"

/-- The event that {lit}`emit` builds: what is not given is taken from the actor, whose role is
the actual one. -/
def auditEvent (version ts : String) (ctx : RequestContext) (args : EmitArgs) : AuditEvent :=
  let actorRole := args.actorRole.or (args.actor.bind fun actor =>
    (actor.actualRole.or actor.role).map (·.value))
  { ts, app := appName, version
    requestId := ctx.requestId
    sourceIp := ctx.sourceIp
    method := ctx.method
    path := ctx.path
    action := sanitize (some args.action)
    result := args.result
    actorId := args.actorId.or (args.actor.bind (·.id))
    actorEmail := sanitize (args.actorEmail.or (args.actor.bind (·.email)))
    actorRole := sanitize actorRole
    targetType := sanitize args.targetType
    targetId := sanitize args.targetId
    reason := sanitize args.reason
    severity := args.severity
    securityRelevant := args.securityRelevant }

namespace AuditEvent

/-- The items of the event's dictionary. -/
def fields (event : AuditEvent) : List (String × Json) :=
  let text := Json.optional .str
  [("ts", .str event.ts), ("app", .str event.app), ("version", .str event.version),
    ("request_id", text event.requestId), ("source_ip", text event.sourceIp),
    ("method", text event.method), ("path", text event.path), ("action", text event.action),
    ("result", .str event.result),
    ("actor_id", Json.optional (fun id : Nat => .int id) event.actorId),
    ("actor_email", text event.actorEmail), ("actor_role", text event.actorRole),
    ("target_type", text event.targetType), ("target_id", text event.targetId),
    ("reason", text event.reason), ("severity", .str event.severity),
    ("security_relevant", .bool event.securityRelevant)]

/-- The items in the order of their keys. -/
def sortedFields (event : AuditEvent) : List (String × Json) :=
  event.fields.insertionSort fun a b => a.1 ≤ b.1

/-- What the audit logger is given: {lit}`json.dumps` of the event. -/
def logged (event : AuditEvent) : List Char :=
  Json.writeSpaced event.fields

/-- {lit}`_line`. -/
def line (event : AuditEvent) : List Char :=
  Json.write (.obj event.sortedFields)

end AuditEvent

/-! ## Rows -/

/-- A row of the table, without its key.  It has no field for the time, the name and the version
that the event has been given. -/
structure AuditRow where
  createdAt : String
  requestId : Option String
  sourceIp : Option String
  method : Option String
  path : Option String
  action : String
  result : String
  actorId : Option Nat
  actorEmail : Option String
  actorRole : Option String
  targetType : Option String
  targetId : Option String
  reason : Option String
  severity : String
  securityRelevant : Bool
deriving DecidableEq, Repr

/-- The row that {lit}`_persist` makes of an event, at a time. -/
def AuditEvent.row (event : AuditEvent) (createdAt : String) : AuditRow :=
  { createdAt
    requestId := event.requestId
    sourceIp := event.sourceIp
    method := event.method
    path := event.path
    action := event.action.getD ""
    result := if event.result = "" then "success" else event.result
    actorId := event.actorId
    actorEmail := event.actorEmail
    actorRole := event.actorRole
    targetType := event.targetType
    targetId := event.targetId
    reason := event.reason
    severity := if event.severity = "" then "info" else event.severity
    securityRelevant := event.securityRelevant }

/-! ## Sinks -/

/-- {lit}`_SEVERITY_RANK` and {lit}`_rank`. -/
def severityRank (severity : String) : Nat :=
  match severity.toLower with
  | "warning" => 1
  | "critical" => 2
  | _ => 0

/-- {lit}`SiemConfig`. -/
structure SiemConfig where
  enabled : Bool := false
  methods : List String := []
  minSeverity : String := "info"
  filePath : String := ""
  syslogHost : String := "localhost"
  syslogPort : Nat := 514
  syslogProtocol : String := "UDP"
  syslogFacility : Nat := 13
  httpEndpoint : String := ""
deriving DecidableEq, Repr

/-- Where an event can be sent. -/
inductive Sink where
  | file (path : String)
  | syslog (host : String) (port facility : Nat) (tcp : Bool)
  | http (endpoint : String)
deriving DecidableEq, Repr

/-- The sinks of a configuration, in the order in which {lit}`emit` tries them.  An HTTP sink
without an endpoint sends nothing. -/
def SiemConfig.sinks (cfg : SiemConfig) : List Sink :=
  (if "file" ∈ cfg.methods ∧ cfg.filePath ≠ "" then [.file cfg.filePath] else []) ++
    ((if "syslog" ∈ cfg.methods then
        [.syslog cfg.syslogHost cfg.syslogPort cfg.syslogFacility
          (cfg.syslogProtocol.toUpper = "TCP")] else []) ++
      (if "http" ∈ cfg.methods ∧ cfg.httpEndpoint ≠ "" then [.http cfg.httpEndpoint] else []))

/-- The gate of {lit}`siem_service.emit`. -/
def SiemConfig.passes (cfg : SiemConfig) (event : AuditEvent) : Bool :=
  cfg.enabled ∧ severityRank cfg.minSeverity ≤ severityRank event.severity

/-- The numeric severity of RFC 5424. -/
def syslogSeverity (severity : String) : Nat :=
  match severity.toLower with
  | "warning" => 4
  | "critical" => 2
  | _ => 6

/-- The message of {lit}`_emit_syslog`. -/
def syslogMessage (facility : Nat) (ts host : String) (event : AuditEvent) : List Char :=
  ("<" ++ toString (facility * 8 + syslogSeverity event.severity) ++ ">1 " ++ ts ++ " " ++
    (if host = "" then "-" else host) ++ " iceberg-ttx - audit - ").toList ++ event.line

/-- What a sink is sent for an event, at a time by a host.  On a stream a newline ends the
message. -/
def Sink.message (ts host : String) (event : AuditEvent) : Sink → List Char
  | file _ => Json.line event.line
  | syslog _ _ facility tcp =>
    if tcp then Json.line (syslogMessage facility ts host event)
    else syslogMessage facility ts host event
  | http _ => event.line

end IcebergTTX

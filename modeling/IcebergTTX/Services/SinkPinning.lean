import IcebergTTX.Services.ScenarioService
import IcebergTTX.Text.Urls
import Mathlib.Data.List.Infix

/-!
# Pinned sinks

{lit}`app/services/sink_pinning.py`: the destination of a secret of the environment, printed as
an origin, and the check that an edit leaves it where the environment has it; with the fields
that are checked by {lit}`audit_settings_service`, {lit}`email_settings_service` and
{lit}`proxy_settings_service`.

Main results:

- Definition {lit}`origin`: what is compared.
- Definition {lit}`checkPinned`: the check.
-/

namespace IcebergTTX.SinkPinning

open Urls

/-- {lit}`ValueError`: of the splitting of a URL, or of the check. -/
inductive PinError where
  | url (error : ValueError)
  | pinned (message : String)
deriving DecidableEq

/-! ## Origins -/

/-- {lit}`origin`. -/
def origin (std : Stdlib) (value : Option String) : Except ValueError (List Char) :=
  let text := (strip (value.getD "")).toList
  if text = [] then .ok []
  else if ¬ ['/', '/'] <:+: text then .ok (std.lower text)
  else do
    let parts ← urlsplit std text
    let host := std.lower ((parts.hostname std).getD [])
    let port ← parts.port
    .ok (std.lower parts.scheme ++ ':' :: '/' :: '/' :: (host ++ portSuffix port))

/-- {lit}`host_changed`. -/
def hostChanged (std : Stdlib) (old new : Option String) : Except ValueError Bool := do
  let old ← origin std old
  let new ← origin std new
  .ok (old ≠ new)

/-! ## The check -/

/-- What a sink is called: its field, its variable and the one of its credential. -/
structure Sink where
  fieldLabel : String
  envVar : String
  credentialVar : String

/-- What is said of an edit that is refused. -/
def Sink.message (sink : Sink) : String :=
  sink.credentialVar ++ " is set, so " ++ sink.fieldLabel ++
    " is pinned to the environment's " ++ sink.envVar ++ ". Change " ++ sink.envVar ++
    " and restart, or clear " ++ sink.credentialVar ++ ", before " ++
    "pointing this at another host."

/-- {lit}`check_pinned`. -/
def checkPinned (std : Stdlib) (new env : Option String) (credentialPresent : Bool)
    (sink : Sink) : Except PinError Unit :=
  if ¬ credentialPresent then .ok ()
  else if strip (new.getD "") = "" then .ok ()
  else do
    let newOrigin ← (origin std new).mapError .url
    let envOrigin ← (origin std env).mapError .url
    if newOrigin = envOrigin then .ok () else .error (.pinned sink.message)

/-- {lit}`validate_changes` of the services: the field is that of the patch, when it is there,
and of the row otherwise. -/
def validateChanges (std : Stdlib) (sink : Sink) (row : String) (change : Option (Option String))
    (env : String) (credentialPresent : Bool) : Except PinError Unit :=
  checkPinned std (change.getD (some row)) (some env) credentialPresent sink

def siemHttpEndpoint : Sink where
  fieldLabel := "the SIEM HTTP endpoint"
  envVar := "SIEM_HTTP_ENDPOINT"
  credentialVar := "SIEM_HTTP_TOKEN"

def smtpHost : Sink where
  fieldLabel := "the SMTP host"
  envVar := "SMTP_HOST"
  credentialVar := "SMTP_PASSWORD"

def proxyUrl : Sink where
  fieldLabel := "the proxy URL"
  envVar := "PROXY_URL"
  credentialVar := "PROXY_USERNAME/PROXY_PASSWORD"

end IcebergTTX.SinkPinning

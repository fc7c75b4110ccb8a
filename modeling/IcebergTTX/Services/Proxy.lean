import IcebergTTX.Services.ScenarioService
import IcebergTTX.Text.Percent
import IcebergTTX.Text.Urls
import Mathlib.Data.List.Infix

/-!
# The outbound proxy

{lit}`app/services/proxy.py`: which proxy a request to a URL takes, and the credentials of the
environment in the URL of that proxy.  The settings {lit}`proxy_username` and
{lit}`proxy_password` are arguments, empty when they are not set.

Main results:

- Definition {lit}`withCredentials`: the URL of the proxy with the credentials.
- Definition {lit}`resolve`: the arguments of the client for a URL.
- Theorem {lit}`resolve_proxy`: a proxy is handed out in one case only, and with credentials.
-/

namespace IcebergTTX.Proxy

open Urls

/-! ## The configuration -/

/-- {lit}`ProxyMode`. -/
inductive ProxyMode where
  | none
  | system
  | explicit
deriving DecidableEq

def ProxyMode.value : ProxyMode → String
  | .none => "NONE"
  | .system => "SYSTEM"
  | .explicit => "EXPLICIT"

/-- {lit}`ProxyMode(value)`. -/
def ProxyMode.ofValue? (value : String) : Option ProxyMode :=
  [ProxyMode.none, .system, .explicit].find? (·.value = value)

/-- {lit}`ProxyConfig`. -/
structure ProxyConfig where
  mode : String := ProxyMode.system.value
  proxyUrl : String := ""
  noProxy : String := ""

/-- The settings that are secret. -/
structure Credentials where
  username : String
  password : String

/-- The arguments of a client: those that are given. -/
structure Kwargs where
  trustEnv : Option Bool
  proxy : Option (Option String)
deriving DecidableEq

/-- What the rest of the library decides: {lit}`str.upper`, and whether an address is in a
network, unless the text is no network. -/
structure Library extends Stdlib where
  upper : String → String
  inNetwork : List Char → List Char → Option Bool

/-! ## The exclusions -/

/-- {lit}`_parse_no_proxy`. -/
def parseNoProxy (value : String) : List String :=
  ((value.toList.splitOn ',').map fun entry => strip (String.ofList entry)).filter (· ≠ "")

/-- An entry against a host in lower case, which may be an address. -/
def excludes (lib : Library) (host : List Char) (isAddress : Bool) (entry : List Char) : Bool :=
  if entry = ['*'] then true
  else if '/' ∈ entry ∧ isAddress then (lib.inNetwork host entry).getD false
  else
    let target := (lib.lower entry).dropWhile (· = '.')
    host = target || ('.' :: target) <:+ host

/-- {lit}`_should_bypass`. -/
def shouldBypass (lib : Library) (host : Option (List Char)) (entries : List String) : Bool :=
  match host with
  | none | some [] => true
  | some host =>
    let host := lib.lower host
    entries.any fun entry => excludes lib host (lib.ipAddress host).isSome entry.toList

/-! ## The credentials -/

/-- The credentials as they stand before a host. -/
def userinfo (credentials : Credentials) : List Char :=
  Text.quote credentials.username ++
    if credentials.password ≠ "" then ':' :: Text.quote credentials.password else []

/-- {lit}`_with_credentials`. -/
def withCredentials (std : Stdlib) (credentials : Credentials) (proxyUrl : String) :
    Except ValueError String :=
  if credentials.username = "" then .ok proxyUrl
  else do
    let parsed ← urlsplit std proxyUrl.toList
    let hostname := (parsed.hostname std).getD []
    if hostname = [] then .ok proxyUrl
    else
      let port ← parsed.port
      let netloc := userinfo credentials ++ '@' :: (hostname ++ portSuffix port)
      .ok (String.ofList (urlunsplit { parsed with netloc }))

/-! ## The resolution -/

/-- No proxy. -/
def direct : Kwargs where
  trustEnv := some false
  proxy := some none

/-- {lit}`resolve`. -/
def resolve (lib : Library) (credentials : Credentials) (cfg : ProxyConfig) (url : String) :
    Except ValueError Kwargs :=
  match (ProxyMode.ofValue? (lib.upper cfg.mode)).getD .system with
  | .system => .ok { trustEnv := some true, proxy := none }
  | .none => .ok direct
  | .explicit =>
    if cfg.proxyUrl = "" then .ok direct
    else do
      let target ← urlsplit lib.toStdlib url.toList
      if shouldBypass lib (target.hostname lib.toStdlib) (parseNoProxy cfg.noProxy) then .ok direct
      else
        let proxy ← withCredentials lib.toStdlib credentials cfg.proxyUrl
        .ok { trustEnv := some false, proxy := some (some proxy) }

/-- {lit}`resolve_kwargs`: nothing is given while no configuration is loaded. -/
def resolveKwargs (lib : Library) (credentials : Credentials) (config : Option ProxyConfig)
    (url : String) : Except ValueError Kwargs :=
  match config with
  | none => .ok { trustEnv := none, proxy := none }
  | some cfg => resolve lib credentials cfg url

/-- A mode other than the default one is recognised by its value. -/
theorem ProxyMode.value_of_ofValue? {value : String}
    (h : (ProxyMode.ofValue? value).getD .system = .explicit) :
    value = ProxyMode.explicit.value := by
  cases hfound : ProxyMode.ofValue? value with
  | none => rw [hfound] at h; cases h
  | some mode =>
      rw [hfound, Option.getD_some] at h
      have hvalue := List.find?_some hfound
      rw [h] at hvalue
      exact (of_decide_eq_true hvalue).symm

/-- A proxy is handed out for a target that is not excluded, and it is the one of the
configuration with the credentials. -/
theorem resolve_proxy {lib : Library} {credentials : Credentials} {cfg : ProxyConfig}
    {url proxy : String} {trustEnv : Option Bool}
    (h : resolve lib credentials cfg url = .ok ⟨trustEnv, some (some proxy)⟩) :
    trustEnv = some false ∧ lib.upper cfg.mode = ProxyMode.explicit.value ∧ cfg.proxyUrl ≠ "" ∧
      withCredentials lib.toStdlib credentials cfg.proxyUrl = .ok proxy ∧
      ∃ target, urlsplit lib.toStdlib url.toList = .ok target ∧
        shouldBypass lib (target.hostname lib.toStdlib) (parseNoProxy cfg.noProxy) = false := by
  unfold resolve at h
  cases hmode : (ProxyMode.ofValue? (lib.upper cfg.mode)).getD .system with
  | system => rw [hmode] at h; cases h
  | none => rw [hmode] at h; cases h
  | explicit =>
      rw [hmode] at h
      dsimp only at h
      split at h
      · cases h
      · rename_i hurl
        obtain ⟨target, htarget, h⟩ := ok_of_bind h
        split at h
        · cases h
        · rename_i hbypass
          obtain ⟨proxy', hproxy, h⟩ := ok_of_bind h
          cases h
          exact ⟨rfl, ProxyMode.value_of_ofValue? hmode, hurl, hproxy, target, htarget,
            Bool.not_eq_true _ ▸ hbypass⟩

end IcebergTTX.Proxy

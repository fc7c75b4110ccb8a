import IcebergTTX.Services.Proxy

/-!
# The credentials of the proxy

The URL with the credentials against the configured one: it leads to the same proxy, with
these credentials, exactly when the host is no bracketed literal and the port is not zero.

Main results:

- Definition {lit}`KeepsDestination`: what is read back from the URL with the credentials.
- Theorem {lit}`keepsDestination_iff`: when that is what was configured.
-/

namespace IcebergTTX.Proxy

open Urls

/-! ## The destination -/

/-- A URL of a proxy with its parts: its host is a name, an IPv4 address or a bracketed IPv6
literal. -/
structure ProxyUrl (std : Stdlib) where
  text : String
  parts : SplitResult
  port : Option Nat
  split : urlsplit std text.toList = .ok parts
  hasPort : parts.port = .ok port
  hasHost : (hostinfo parts.netloc).1 ≠ []
  hostForm :
    ('[' ∉ afterLast '@' parts.netloc ∧ ']' ∉ afterLast '@' parts.netloc) ∨
      ('[' ∈ afterLast '@' parts.netloc ∧
        std.ipAddress (hostinfo parts.netloc).1 = some .v6)

/-- The URL with the credentials is read back as the configured one, and its user information
as the credentials. -/
def KeepsDestination (std : Stdlib) (credentials : Credentials) (url : ProxyUrl std) : Prop :=
  ∃ text back, withCredentials std credentials url.text = .ok text ∧
    urlsplit std text.toList = .ok back ∧
    back.scheme = url.parts.scheme ∧
    back.hostname std = url.parts.hostname std ∧
    back.port = url.parts.port ∧
    back.path = url.parts.path ∧
    back.query = url.parts.query ∧
    back.fragment = url.parts.fragment ∧
    back.username.bind Text.unquote = some credentials.username ∧
    back.password.bind Text.unquote = some credentials.password

/-! ## The characters of the location -/

/-- A plain character takes no URL apart, and is not removed. -/
theorem spec_of_isPlain {c : Char} (hc : Text.isPlain c) :
    isAscii c ∧ endsNetloc c = false ∧ isRemoved c = false ∧
      c ∉ delimiters ∧ c ∉ ['@', ':', '[', ']'] := by
  have hascii : isAscii c := by
    simp only [Text.isPlain, Bool.or_eq_true, decide_eq_true_eq, List.mem_cons,
      List.not_mem_nil, or_false] at hc
    rcases hc with hletter | rfl | rfl | rfl | rfl | rfl
    · exact isAscii_of_isSchemeChar (by simp [isSchemeChar, hletter])
    all_goals decide
  exact ⟨hascii, forall_ascii (fun c => Text.isPlain c → endsNetloc c = false ∧
    isRemoved c = false ∧ c ∉ delimiters ∧ c ∉ ['@', ':', '[', ']']) (by decide +kernel) hascii hc⟩

/-- A character of the user information is plain, or the colon. -/
theorem mem_userinfo {credentials : Credentials} {c : Char} (hc : c ∈ userinfo credentials) :
    Text.isPlain c ∨ c = ':' := by
  rcases List.mem_append.mp hc with hc | hc
  · exact .inl (Text.plain_of_mem_quote hc)
  · split at hc
    · rcases List.mem_cons.mp hc with rfl | hc
      · exact .inr rfl
      · exact .inl (Text.plain_of_mem_quote hc)
    · cases hc

section Rebuilt

variable {std : Stdlib} {credentials : Credentials} (url : ProxyUrl std)

namespace ProxyUrl

/-- The host as it was written. -/
def host : List Char :=
  (hostinfo url.parts.netloc).1

/-- The parts that are put together. -/
def rebuilt (credentials : Credentials) : SplitResult :=
  { url.parts with
    netloc := userinfo credentials ++ '@' :: (lowerHost std url.host ++ portSuffix url.port) }

theorem hostname_eq : url.parts.hostname std = some (lowerHost std url.host) :=
  if_neg url.hasHost

theorem at_notMem_host : '@' ∉ url.host := fun hmem =>
  not_mem_afterLast '@' _ (hostinfo_subset _ hmem)

theorem host_subset : url.host ⊆ url.parts.netloc := fun _ hc =>
  afterLast_subset '@' _ (hostinfo_subset _ hc)

theorem canonical (hstd : std.Lawful) : Canonical std url.parts := by
  refine canonical_of_urlsplit hstd url.split fun hnil => url.hasHost ?_
  exact List.eq_nil_iff_forall_not_mem.mpr fun c hc => by
    have hmem := url.host_subset hc
    rw [hnil] at hmem
    cases hmem

/-- Where the characters of the location come from. -/
theorem mem_rebuilt {c : Char} (hc : c ∈ (url.rebuilt credentials).netloc) :
    Text.isPlain c ∨ c ∈ ['@', ':'] ∨ c ∈ lowerHost std url.host := by
  rcases List.mem_append.mp hc with hc | hc
  · rcases mem_userinfo hc with hplain | rfl
    · exact .inl hplain
    · exact .inr (.inl (by decide))
  · rcases List.mem_cons.mp hc with rfl | hc
    · exact .inr (.inl (by decide))
    · rcases List.mem_append.mp hc with hc | hc
      · exact .inr (.inr hc)
      · rcases mem_portSuffix hc with rfl | hdigit
        · exact .inr (.inl (by decide))
        · exact .inl (by simp [Text.isPlain, Char.isAlphanum, hdigit])

/-- A mark that is not plain and no separator was in the host. -/
theorem mem_host_of_mem_rebuilt (hstd : std.Lawful) {d : Char} (hd : IsMark d)
    (hplain : ¬ Text.isPlain d) (hother : d ∉ ['@', ':'])
    (hmem : d ∈ (url.rebuilt credentials).netloc) : d ∈ url.host :=
  (mem_lowerHost hstd hd).mp
    (((url.mem_rebuilt hmem).resolve_left hplain).resolve_left hother)

/-- The parts that are put together can be told apart. -/
theorem shaped_rebuilt (hstd : std.Lawful) (credentials : Credentials) :
    Shaped std (url.rebuilt credentials) := by
  have hparts := url.canonical hstd
  have hhost {d : Char} (hd : endsNetloc d ∨ isRemoved d) (hmem : d ∈ lowerHost std url.host) :
      d ∈ url.parts.netloc := url.host_subset ((mem_lowerHost hstd (isMark_of_ends hd)).mp hmem)
  have hnetloc : ∀ c ∈ (url.rebuilt credentials).netloc,
      endsNetloc c = false ∧ isRemoved c = false := by
    intro c hc
    rcases url.mem_rebuilt hc with hplain | hother | hc
    · obtain ⟨-, hends, hremoved, -⟩ := spec_of_isPlain hplain
      exact ⟨hends, hremoved⟩
    · simp only [List.mem_cons, List.not_mem_nil, or_false] at hother
      rcases hother with rfl | rfl <;> decide
    · constructor
      · refine Bool.eq_false_iff.mpr fun hends => ?_
        exact Bool.eq_false_iff.mp (hparts.netloc c (hhost (.inl hends) hc)) hends
      · refine Bool.eq_false_iff.mpr fun hremoved => ?_
        have hclean := hparts.clean c (by simp [hhost (.inr hremoved) hc])
        exact Bool.eq_false_iff.mp hclean hremoved
  constructor
  · exact hparts.scheme
  · exact hparts.lowered
  · exact fun c hc => (hnetloc c hc).1
  · exact hparts.path
  · exact hparts.pathChars
  · exact hparts.query
  · intro c hc
    have hclean := hparts.clean c
    simp only [List.mem_append] at hc hclean
    rcases hc with ((hc | hc) | hc) | hc
    · exact (hnetloc c hc).2
    · exact hclean (.inl (.inl (.inr hc)))
    · exact hclean (.inl (.inr hc))
    · exact hclean (.inr hc)

/-- The credentials are put into the URL of the proxy. -/
theorem withCredentials_eq (hstd : std.Lawful) (husername : credentials.username ≠ "") :
    withCredentials std credentials url.text =
      .ok (String.ofList (urlunsplit (url.rebuilt credentials))) := by
  have hhostname : (url.parts.hostname std).getD [] = lowerHost std url.host := by
    rw [url.hostname_eq, Option.getD_some]
  have hne : lowerHost std url.host ≠ [] := lowerHost_ne_nil hstd url.hasHost
  rw [withCredentials, if_neg husername, url.split]
  dsimp only [bind, Except.bind]
  rw [hhostname, if_neg hne, url.hasPort]
  rfl

/-- The user information is read back as the credentials. -/
theorem userinfo_rebuilt (hstd : std.Lawful) (hpassword : credentials.password ≠ "") :
    (url.rebuilt credentials).username.bind Text.unquote = some credentials.username ∧
      (url.rebuilt credentials).password.bind Text.unquote = some credentials.password := by
  have hat : '@' ∉ lowerHost std url.host ++ portSuffix url.port := fun hmem => by
    rcases List.mem_append.mp hmem with hmem | hmem
    · exact url.at_notMem_host ((mem_lowerHost hstd (by decide)).mp hmem)
    · exact (mem_portSuffix hmem).elim (by decide) (by decide)
  have hmem : '@' ∈ (url.rebuilt credentials).netloc := by simp [rebuilt]
  have hinfo : beforeLast '@' (url.rebuilt credentials).netloc =
      Text.quote credentials.username ++ ':' :: Text.quote credentials.password := by
    rw [rebuilt, beforeLast_append hat, userinfo, if_pos hpassword]
  have hcolon : ':' ∉ Text.quote credentials.username := fun hmem =>
    absurd (Text.plain_of_mem_quote hmem) (by decide)
  constructor
  · rw [SplitResult.username, if_pos hmem, hinfo, before_append hcolon, Option.bind_some,
      Text.unquote_quote]
  · rw [SplitResult.password, hinfo, if_pos ⟨hmem, by simp⟩, after_append hcolon,
      Option.bind_some, Text.unquote_quote]

/-! ### Hosts without brackets -/

/-- The host and the port of the location, read back. -/
theorem hostinfo_rebuilt (hstd : std.Lawful) (hopen : '[' ∉ afterLast '@' url.parts.netloc) :
    hostinfo (url.rebuilt credentials).netloc =
      (lowerHost std url.host, (portSuffix url.port).tail) := by
  refine hostinfo_location ?_ ?_ ?_
  · exact fun hmem => url.at_notMem_host ((mem_lowerHost hstd (by decide)).mp hmem)
  · exact fun hmem => hopen (hostinfo_subset _ ((mem_lowerHost hstd (by decide)).mp hmem))
  · exact fun hmem => colon_notMem_hostinfo hopen ((mem_lowerHost hstd (by decide)).mp hmem)

theorem hostname_rebuilt (hstd : std.Lawful) (hopen : '[' ∉ afterLast '@' url.parts.netloc) :
    (url.rebuilt credentials).hostname std = url.parts.hostname std := by
  rw [url.hostname_eq, SplitResult.hostname, url.hostinfo_rebuilt hstd hopen]
  dsimp only
  rw [lowerHost_lowerHost hstd]
  exact if_neg (lowerHost_ne_nil hstd url.hasHost)

theorem port_rebuilt (hstd : std.Lawful) (hopen : '[' ∉ afterLast '@' url.parts.netloc) :
    (url.rebuilt credentials).port = .ok (url.port.filter (· ≠ 0)) := by
  refine SplitResult.port_of_portSuffix ?_ ?_
  · rw [url.hostinfo_rebuilt hstd hopen]
  · intro p hp
    have hport : url.parts.port = .ok (some p) := by rw [url.hasPort, Option.mem_def.mp hp]
    exact SplitResult.port_le hport

/-- The location of a host without brackets is accepted. -/
theorem canonical_rebuilt (hstd : std.Lawful) (hopen : '[' ∉ afterLast '@' url.parts.netloc)
    (hclose : ']' ∉ afterLast '@' url.parts.netloc) :
    Canonical std (url.rebuilt credentials) := by
  have hparts := url.canonical hstd
  have hshaped := url.shaped_rebuilt hstd credentials
  have hnoOpen : '[' ∉ (url.rebuilt credentials).netloc := fun hmem =>
    hopen (hostinfo_subset _
      (url.mem_host_of_mem_rebuilt hstd (by decide) (by decide) (by decide) hmem))
  have hnoClose : ']' ∉ (url.rebuilt credentials).netloc := fun hmem =>
    hclose (hostinfo_subset _
      (url.mem_host_of_mem_rebuilt hstd (by decide) (by decide) (by decide) hmem))
  refine { toShaped := hshaped, brackets := ?_, normal := ?_ }
  · rw [checkBrackets, if_pos (iff_of_false hnoOpen hnoClose), if_neg hnoOpen]
  · have hslash {parts : SplitResult} (h : Shaped std parts) : '/' ∉ parts.netloc := fun hmem =>
      Bool.eq_false_iff.mp (h.netloc '/' hmem) (by decide)
    have hconfigured := (checkNetloc_eq_ok_iff hstd (hslash hparts.toShaped)).mp hparts.normal
    refine (checkNetloc_eq_ok_iff hstd (hslash hshaped)).mpr fun c hc hother d hd hmem => ?_
    rcases url.mem_rebuilt hc with hplain | hseparator | hc
    · obtain ⟨hascii, -, -, hdelimiter, -⟩ := spec_of_isPlain hplain
      rw [hstd.nfkc_ascii c hascii, List.mem_singleton] at hmem
      exact hdelimiter (hmem ▸ hd)
    · exact hother (List.mem_append_left ['#', '?'] hseparator)
    · obtain ⟨c', hc', hmem'⟩ := nfkc_lowerHost hstd hc hd hmem
      refine hconfigured c' (url.host_subset hc') ?_ d hd hmem'
      have hends : endsNetloc c' = false := hparts.netloc c' (url.host_subset hc')
      simp only [List.mem_cons, List.not_mem_nil, or_false]
      rintro (rfl | rfl | rfl | rfl)
      · exact url.at_notMem_host hc'
      · exact colon_notMem_hostinfo hopen hc'
      · exact absurd hends (by decide)
      · exact absurd hends (by decide)

/-! ### Bracketed literals -/

/-- A bracketed literal is not read back: its colons separate a port, or a bracket of its zone
is not closed. -/
theorem literal_lost (hstd : std.Lawful) (hopen : '[' ∈ afterLast '@' url.parts.netloc)
    (hbrackets : checkBrackets std (url.rebuilt credentials).netloc = .ok ()) :
    (url.rebuilt credentials).hostname std ≠ url.parts.hostname std := by
  have haddress : std.ipAddress url.host = some .v6 :=
    (url.hostForm.resolve_left fun hname => hname.1 hopen).2
  have hcolon : ':' ∈ lowerHost std url.host :=
    (mem_lowerHost hstd (by decide)).mpr (hstd.colon _ haddress)
  have hclose : ']' ∉ (url.rebuilt credentials).netloc := fun hmem =>
    close_notMem_hostinfo hopen
      (url.mem_host_of_mem_rebuilt hstd (by decide) (by decide) (by decide) hmem)
  have hnoOpen : '[' ∉ (url.rebuilt credentials).netloc := fun hmem => by
    rw [checkBrackets, if_neg fun hiff => hclose (hiff.mp hmem)] at hbrackets
    cases hbrackets
  intro hsame
  rw [url.hostname_eq] at hsame
  obtain ⟨-, hhost⟩ := SplitResult.hostname_eq_some hsame
  rw [hhost] at hcolon
  exact colon_notMem_hostinfo (fun hmem => hnoOpen (afterLast_subset '@' _ hmem))
    ((mem_lowerHost hstd (by decide)).mp hcolon)

end ProxyUrl

end Rebuilt

/-! ## The main result -/

/-- The URL with the credentials leads to the configured proxy with these credentials exactly
when its host is no bracketed literal and its port is not zero. -/
theorem keepsDestination_iff {std : Stdlib} (hstd : std.Lawful) {credentials : Credentials}
    (husername : credentials.username ≠ "") (hpassword : credentials.password ≠ "")
    (url : ProxyUrl std) :
    KeepsDestination std credentials url ↔
      '[' ∉ afterLast '@' url.parts.netloc ∧ url.port ≠ some 0 := by
  have hne : (url.rebuilt credentials).netloc ≠ [] := by simp [ProxyUrl.rebuilt]
  constructor
  · rintro ⟨text, back, htext, hback, -, hhostname, hport, -⟩
    rw [url.withCredentials_eq hstd husername] at htext
    cases htext
    rw [String.toList_ofList] at hback
    obtain ⟨rfl, hbrackets⟩ :=
      (url.shaped_rebuilt hstd credentials).eq_of_urlsplit hne hback
    have hopen : '[' ∉ afterLast '@' url.parts.netloc := fun hopen =>
      url.literal_lost hstd hopen hbrackets hhostname
    refine ⟨hopen, fun hzero => ?_⟩
    rw [url.port_rebuilt hstd hopen, url.hasPort, hzero] at hport
    cases hport
  · rintro ⟨hopen, hzero⟩
    have hclose : ']' ∉ afterLast '@' url.parts.netloc := by
      rcases url.hostForm with hname | hliteral
      · exact hname.2
      · exact absurd hliteral.1 hopen
    obtain ⟨hback, hbackPassword⟩ := url.userinfo_rebuilt hstd hpassword
    refine ⟨_, url.rebuilt credentials, url.withCredentials_eq hstd husername, ?_, rfl,
      url.hostname_rebuilt hstd hopen, ?_, rfl, rfl, rfl, hback, hbackPassword⟩
    · rw [String.toList_ofList]
      exact (url.canonical_rebuilt hstd hopen hclose).urlsplit_urlunsplit hne
    · rw [url.port_rebuilt hstd hopen, url.hasPort]
      cases hport : url.port with
      | none => rfl
      | some p =>
          have hp : p ≠ 0 := fun h => hzero (by rw [hport, h])
          rw [Option.filter_some, if_pos (decide_eq_true hp)]

/-- The URL {lit}`http://proxy.corp:3128`. -/
def corporate : ProxyUrl Stdlib.ascii where
  text := "http://proxy.corp:3128"
  parts := ⟨"http".toList, "proxy.corp:3128".toList, [], [], []⟩
  port := some 3128
  split := by decide
  hasPort := by decide
  hasHost := by decide
  hostForm := by decide

/-- A name with a port is kept. -/
theorem keepsDestination_corporate :
    KeepsDestination Stdlib.ascii ⟨"user", "p@ss:w/rd"⟩ corporate :=
  (keepsDestination_iff Stdlib.lawful_ascii (by decide) (by decide) corporate).mpr
    ⟨by decide, by decide⟩

/-- The URL {lit}`http://[::1]:8080`. -/
def loopback : ProxyUrl Stdlib.ascii where
  text := "http://[::1]:8080"
  parts := ⟨"http".toList, "[::1]:8080".toList, [], [], []⟩
  port := some 8080
  split := by decide
  hasPort := by decide
  hasHost := by decide
  hostForm := by decide

/-- The brackets of a literal are not written again. -/
theorem loopback_lost :
    withCredentials Stdlib.ascii ⟨"user", "secret"⟩ loopback.text =
        .ok "http://user:secret@::1:8080" ∧
      ¬ KeepsDestination Stdlib.ascii ⟨"user", "secret"⟩ loopback := by
  have htext : withCredentials Stdlib.ascii ⟨"user", "secret"⟩ loopback.text =
      .ok "http://user:secret@::1:8080" := by decide
  refine ⟨htext, ?_⟩
  rintro ⟨text, back, hwith, hback, -, hhostname, -⟩
  have hread : urlsplit Stdlib.ascii "http://user:secret@::1:8080".toList =
      .ok ⟨"http".toList, "user:secret@::1:8080".toList, [], [], []⟩ := by decide
  obtain rfl := Except.ok.inj (htext.symm.trans hwith)
  obtain rfl := Except.ok.inj (hread.symm.trans hback)
  revert hhostname
  decide

end IcebergTTX.Proxy

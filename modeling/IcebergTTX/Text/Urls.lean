import Mathlib.Data.List.Basic
import Mathlib.Data.List.TakeDrop
import Mathlib.Data.List.TakeWhile

/-!
# URLs taken apart and put together

The splitting of a URL into its five parts, the parts of its network location, and the way
back, as {lit}`urllib.parse` has them: the text is cleaned, the scheme ends with the first
colon, the location with the next of three characters, the host with a colon unless it is
bracketed.  Lowering and normalising texts and recognising addresses are parameters with
their laws.

Main results:

- Definitions {lit}`urlsplit`, {lit}`urlunsplit`: the two directions.
- Theorem {lit}`canonical_of_urlsplit`: what the parts of a URL look like.
- Theorem {lit}`Canonical.urlsplit_urlunsplit`: parts that look so are read back.
-/

namespace Urls

/-! ## Cutting texts -/

section Cuts

variable {d : Char} {l r : List Char}

/-- What is before the first {lit}`d`, or everything. -/
def before (d : Char) (text : List Char) : List Char :=
  text.takeWhile (· ≠ d)

/-- What is after the first {lit}`d`, or nothing. -/
def after (d : Char) (text : List Char) : List Char :=
  (text.dropWhile (· ≠ d)).tail

/-- What is after the last {lit}`d`, or everything. -/
def afterLast (d : Char) (text : List Char) : List Char :=
  (before d text.reverse).reverse

/-- What is before the last {lit}`d`, or nothing. -/
def beforeLast (d : Char) (text : List Char) : List Char :=
  (after d text.reverse).reverse

/-- What stands before the first mark has none. -/
theorem not_mem_before (d : Char) (text : List Char) : d ∉ before d text := by
  intro h
  simpa using List.mem_takeWhile_imp h

/-- What stands before a mark is of the text. -/
theorem before_subset (d : Char) (text : List Char) : before d text ⊆ text :=
  (List.takeWhile_sublist _).subset

/-- What stands after a mark is of the text. -/
theorem after_subset (d : Char) (text : List Char) : after d text ⊆ text :=
  ((List.tail_sublist _).trans (List.dropWhile_sublist _)).subset

/-- The characters of a text without {lit}`d` differ from it. -/
theorem decide_ne_of_notMem (h : d ∉ l) : ∀ c ∈ l, decide (c ≠ d) = true := by
  intro c hc
  simp only [ne_eq, decide_eq_true_eq]
  rintro rfl
  exact h hc

/-- Without a mark all of the text stands before it. -/
theorem before_eq_self (h : d ∉ l) : before d l = l :=
  List.takeWhile_eq_self_iff.mpr (decide_ne_of_notMem h)

/-- Without a mark nothing stands after it. -/
theorem after_eq_nil (h : d ∉ l) : after d l = [] := by
  have hdrop : l.dropWhile (· ≠ d) = [] :=
    List.dropWhile_eq_nil_iff.mpr (decide_ne_of_notMem h)
  rw [after, hdrop, List.tail_nil]

/-- A text is cut at its first mark: what stands before it. -/
theorem before_append (h : d ∉ l) : before d (l ++ d :: r) = l := by
  rw [before, List.takeWhile_append_of_pos (decide_ne_of_notMem h),
    List.takeWhile_cons_of_neg (by simp), List.append_nil]

/-- What stands after it. -/
theorem after_append (h : d ∉ l) : after d (l ++ d :: r) = r := by
  rw [after, List.dropWhile_append_of_pos (decide_ne_of_notMem h),
    List.dropWhile_cons_of_neg (by simp), List.tail_cons]

/-- What stands after the last mark has none. -/
theorem not_mem_afterLast (d : Char) (text : List Char) : d ∉ afterLast d text :=
  fun h => not_mem_before d text.reverse (List.mem_reverse.mp h)

/-- What stands after the last mark is of the text. -/
theorem afterLast_subset (d : Char) (text : List Char) : afterLast d text ⊆ text :=
  fun _ hc => List.mem_reverse.mp (before_subset d _ (List.mem_reverse.mp hc))

/-- A text is cut at its last mark: what stands after it. -/
theorem afterLast_append (h : d ∉ r) : afterLast d (l ++ d :: r) = r := by
  have hreverse : (l ++ d :: r).reverse = r.reverse ++ d :: l.reverse := by simp
  rw [afterLast, hreverse, before_append (by simpa using h), List.reverse_reverse]

/-- What stands before it. -/
theorem beforeLast_append (h : d ∉ r) : beforeLast d (l ++ d :: r) = l := by
  have hreverse : (l ++ d :: r).reverse = r.reverse ++ d :: l.reverse := by simp
  rw [beforeLast, hreverse, after_append (by simpa using h), List.reverse_reverse]

end Cuts

/-! ## What the rest of the library decides -/

/-- The two kinds of addresses. -/
inductive IPVersion where
  | v4
  | v6
deriving DecidableEq

/-- What {lit}`str.lower`, {lit}`unicodedata.normalize` and {lit}`ipaddress.ip_address` give. -/
structure Stdlib where
  lower : List Char → List Char
  nfkc : List Char → List Char
  ipAddress : List Char → Option IPVersion

def isAscii (c : Char) : Bool :=
  c.toNat < 128

/-- The characters that a normalised location must not bring in. -/
def delimiters : List Char :=
  ['/', '?', '#', '@', ':']

/-- Lowering goes character by character: an ASCII character has its own lower case, another
one becomes one or more characters, of ASCII letters only. -/
inductive Lowered : List Char → List Char → Prop where
  | nil : Lowered [] []
  | ascii {c : Char} {rest out : List Char} (hc : isAscii c) (hrest : Lowered rest out) :
      Lowered (c :: rest) (c.toLower :: out)
  | other {c : Char} {rest piece out : List Char} (hc : ¬ isAscii c) (hne : piece ≠ [])
      (hpiece : ∀ d ∈ piece, isAscii d → d.isAlpha) (hrest : Lowered rest out) :
      Lowered (c :: rest) (piece ++ out)

/-- The laws: lowering is done once and on each side of a percent sign, normalising goes
character by character as far as the delimiters go and leaves ASCII alone, the lower case of a
character brings in no delimiter, and an IPv6 address has colons. -/
structure Stdlib.Lawful (std : Stdlib) : Prop where
  lowered : ∀ text, Lowered text (std.lower text)
  lower_lower : ∀ text, std.lower (std.lower text) = std.lower text
  lower_percent : ∀ l r, std.lower (l ++ '%' :: r) = std.lower l ++ '%' :: std.lower r
  mem_nfkc : ∀ text, ∀ d ∈ delimiters, d ∈ std.nfkc text ↔ ∃ c ∈ text, d ∈ std.nfkc [c]
  nfkc_ascii : ∀ c, isAscii c → std.nfkc [c] = [c]
  nfkc_lower : ∀ text, ∀ c ∈ std.lower text, ∀ d ∈ delimiters, d ∈ std.nfkc [c] →
    ∃ c' ∈ text, d ∈ std.nfkc [c']
  colon : ∀ host, std.ipAddress host = some .v6 → ':' ∈ host

/-- What the library raises. -/
inductive ValueError where
  | invalidIPv6Url
  | invalidIPvFuture
  | notAnAddress (host : List Char)
  | bracketedIPv4
  | normalizedNetloc (netloc : List Char)
  | portNotInteger (port : List Char)
  | portOutOfRange
deriving DecidableEq

/-- What ends well has steps that do. -/
theorem ok_of_bind {α β : Type} {p : Except ValueError α} {f : α → Except ValueError β} {b : β}
    (h : p >>= f = .ok b) : ∃ a, p = .ok a ∧ f a = .ok b := by
  cases p with
  | error e => cases h
  | ok a => exact ⟨a, rfl, h⟩

/-! ## Splitting -/

/-- {lit}`SplitResult`. -/
structure SplitResult where
  scheme : List Char
  netloc : List Char
  path : List Char
  query : List Char
  fragment : List Char
deriving DecidableEq

/-- The characters that are removed wherever they are: tab, line feed, carriage return. -/
def isRemoved (c : Char) : Bool :=
  c.toNat = 9 || c.toNat = 10 || c.toNat = 13

/-- A URL without the blanks and controls at its start, and without those characters. -/
def clean (url : List Char) : List Char :=
  (url.dropWhile fun c => c.toNat ≤ 32).filter fun c => !isRemoved c

/-- {lit}`scheme_chars`. -/
def isSchemeChar (c : Char) : Bool :=
  c.isAlphanum || c = '+' || c = '-' || c = '.'

/-- What a scheme looks like. -/
def isScheme (text : List Char) : Bool :=
  text.head?.any Char.isAlpha && text.all isSchemeChar

/-- The scheme of a URL, lowered, and the rest. -/
def splitScheme (std : Stdlib) (url : List Char) : List Char × List Char :=
  if ':' ∈ url ∧ isScheme (before ':' url) then (std.lower (before ':' url), after ':' url)
  else ([], url)

def isHexDigit (c : Char) : Bool :=
  ('0' ≤ c && c ≤ '9') || ('a' ≤ c && c ≤ 'f') || ('A' ≤ c && c ≤ 'F')

/-- An address of a future version: after its letter hexadecimal digits, a dot, and more. -/
def isIPvFuture (host : List Char) : Bool :=
  let version := host.tail.takeWhile isHexDigit
  let rest := host.tail.dropWhile isHexDigit
  host.head? = some 'v' && version ≠ [] && rest.head? = some '.' && rest.tail ≠ [] &&
    rest.all fun c => c.toNat ≠ 10

/-- {lit}`_check_bracketed_host`. -/
def checkBracketedHost (std : Stdlib) (host : List Char) : Except ValueError Unit :=
  if host.head? = some 'v' then
    if isIPvFuture host then .ok () else .error .invalidIPvFuture
  else
    match std.ipAddress host with
    | none => .error (.notAnAddress host)
    | some .v4 => .error .bracketedIPv4
    | some .v6 => .ok ()

/-- {lit}`_check_bracketed_netloc`. -/
def checkBracketedNetloc (std : Stdlib) (netloc : List Char) : Except ValueError Unit :=
  let hostnameAndPort := afterLast '@' netloc
  if '[' ∈ hostnameAndPort then
    let bracketed := after '[' hostnameAndPort
    let port := after ']' bracketed
    if before '[' hostnameAndPort ≠ [] then .error .invalidIPv6Url
    else if port ≠ [] ∧ port.head? ≠ some ':' then .error .invalidIPv6Url
    else checkBracketedHost std (before ']' bracketed)
  else checkBracketedHost std (before ':' hostnameAndPort)

/-- The checks of the brackets of a location. -/
def checkBrackets (std : Stdlib) (netloc : List Char) : Except ValueError Unit :=
  if '[' ∈ netloc ↔ ']' ∈ netloc then
    if '[' ∈ netloc then checkBracketedNetloc std netloc else .ok ()
  else .error .invalidIPv6Url

/-- {lit}`_checknetloc`. -/
def checkNetloc (std : Stdlib) (netloc : List Char) : Except ValueError Unit :=
  if netloc.all isAscii then .ok ()
  else
    let n := netloc.filter fun c => c ∉ ['@', ':', '#', '?']
    if n = std.nfkc n then .ok ()
    else if delimiters.any fun d => d ∈ std.nfkc n then .error (.normalizedNetloc netloc)
    else .ok ()

/-- The characters that end a location. -/
def endsNetloc (c : Char) : Bool :=
  c = '/' || c = '?' || c = '#'

/-- The location of a URL without its scheme, with its brackets checked, and the rest. -/
def splitNetloc (std : Stdlib) (url : List Char) :
    Except ValueError (List Char × List Char) :=
  if url.take 2 = ['/', '/'] then do
    let netloc := (url.drop 2).takeWhile fun c => !endsNetloc c
    checkBrackets std netloc
    .ok (netloc, (url.drop 2).dropWhile fun c => !endsNetloc c)
  else .ok ([], url)

/-- {lit}`urlsplit`. -/
def urlsplit (std : Stdlib) (url : List Char) : Except ValueError SplitResult := do
  let (scheme, url) := splitScheme std (clean url)
  let (netloc, url) ← splitNetloc std url
  checkNetloc std netloc
  .ok
    { scheme, netloc
      path := before '?' (before '#' url)
      query := after '?' (before '#' url)
      fragment := after '#' url }

/-! ## The parts of a location -/

/-- {lit}`_hostinfo`: the host, and the text of the port or nothing. -/
def hostinfo (netloc : List Char) : List Char × List Char :=
  let hostinfo := afterLast '@' netloc
  if '[' ∈ hostinfo then
    let bracketed := after '[' hostinfo
    (before ']' bracketed, after ':' (after ']' bracketed))
  else (before ':' hostinfo, after ':' hostinfo)

/-- A host with the lower case of what is before its zone. -/
def lowerHost (std : Stdlib) (host : List Char) : List Char :=
  std.lower (before '%' host) ++ host.dropWhile (· ≠ '%')

namespace SplitResult

variable (std : Stdlib) (parts : SplitResult)

def hostname : Option (List Char) :=
  let host := (hostinfo parts.netloc).1
  if host = [] then none else some (lowerHost std host)

def port : Except ValueError (Option Nat) :=
  let text := (hostinfo parts.netloc).2
  if text = [] then .ok none
  else if text.all Char.isDigit then
    let port := Nat.ofDigitChars 10 text 0
    if port ≤ 65535 then .ok (some port) else .error .portOutOfRange
  else .error (.portNotInteger text)

def username : Option (List Char) :=
  if '@' ∈ parts.netloc then some (before ':' (beforeLast '@' parts.netloc)) else none

def password : Option (List Char) :=
  if '@' ∈ parts.netloc ∧ ':' ∈ beforeLast '@' parts.netloc then
    some (after ':' (beforeLast '@' parts.netloc))
  else none

end SplitResult

/-! ## Putting together -/

/-- A port as it is written after its host; zero is not written. -/
def portSuffix : Option Nat → List Char
  | none => []
  | some port => if port = 0 then [] else ':' :: Nat.toDigits 10 port

/-- {lit}`uses_netloc`. -/
def usesNetloc : List String :=
  ["", "ftp", "http", "gopher", "nntp", "telnet", "imap", "wais", "file", "mms", "https",
    "shttp", "snews", "prospero", "rtsp", "rtsps", "rtspu", "rsync", "svn", "svn+ssh", "sftp",
    "nfs", "git", "git+ssh", "ws", "wss", "itms-services"]

/-- The location and the path of a URL. -/
def joinNetloc (scheme netloc path : List Char) : List Char :=
  if netloc ≠ [] then
    '/' :: '/' :: (netloc ++ if path ≠ [] ∧ path.head? ≠ some '/' then '/' :: path else path)
  else if path.take 2 = ['/', '/'] then '/' :: '/' :: path
  else if scheme ≠ [] ∧ String.ofList scheme ∈ usesNetloc ∧
      (path = [] ∨ path.head? = some '/') then
    '/' :: '/' :: path
  else path

/-- {lit}`urlunsplit`. -/
def urlunsplit (parts : SplitResult) : List Char :=
  let url := joinNetloc parts.scheme parts.netloc parts.path
  let url := if parts.scheme ≠ [] then parts.scheme ++ ':' :: url else url
  let url := if parts.query ≠ [] then url ++ '?' :: parts.query else url
  if parts.fragment ≠ [] then url ++ '#' :: parts.fragment else url

/-! ## What lowering leaves -/

/-- A mark is an ASCII character that is no letter. -/
def IsMark (d : Char) : Prop :=
  isAscii d ∧ ¬ d.isAlpha
deriving Decidable

/-- The delimiters are marks. -/
theorem isMark_of_mem_delimiters {d : Char} (hd : d ∈ delimiters) : IsMark d := by
  simp only [delimiters, List.mem_cons, List.not_mem_nil, or_false] at hd
  rcases hd with rfl | rfl | rfl | rfl | rfl <;> decide

/-- What holds of all ASCII characters is checked one by one. -/
theorem forall_ascii (P : Char → Prop) (h : ∀ n < 128, P (Char.ofNat n)) {c : Char}
    (hc : isAscii c) : P c := by
  have hchar := h c.toNat (of_decide_eq_true hc)
  rwa [Char.ofNat_toNat] at hchar

/-- The lower case of an ASCII character. -/
theorem toLower_spec {c : Char} (hc : isAscii c) :
    (c.toLower.isAlpha ↔ c.isAlpha) ∧ (¬ c.isAlpha → c.toLower = c) ∧
      (isSchemeChar c → isSchemeChar c.toLower) := by
  exact forall_ascii (fun c => (c.toLower.isAlpha ↔ c.isAlpha) ∧
    (¬ c.isAlpha → c.toLower = c) ∧ (isSchemeChar c → isSchemeChar c.toLower))
    (by decide +kernel) hc

/-- A character up to an ASCII one is one. -/
theorem isAscii_of_le {c : Char} (last : UInt32) (hlast : last.toNat < 128) (hc : c.val ≤ last) :
    isAscii c :=
  decide_eq_true (Nat.lt_of_le_of_lt (UInt32.le_iff_toNat_le.mp hc) hlast)

/-- The characters of a scheme are ASCII. -/
theorem isAscii_of_isSchemeChar {c : Char} (hc : isSchemeChar c) : isAscii c := by
  simp only [isSchemeChar, Bool.or_eq_true, decide_eq_true_eq] at hc
  rcases hc with ((hletter | rfl) | rfl) | rfl
  · have hranges : (c.isUpper || c.isLower || c.isDigit) = true := hletter
    simp only [Bool.or_eq_true] at hranges
    rcases hranges with (hupper | hlower) | hdigit
    · exact isAscii_of_le 90 (by decide) (of_decide_eq_true hupper).2
    · exact isAscii_of_le 122 (by decide) (of_decide_eq_true (Bool.and_eq_true_iff.mp hlower).2)
    · exact isAscii_of_le 57 (by decide) (of_decide_eq_true (Bool.and_eq_true_iff.mp hdigit).2)
  all_goals decide

/-- The characters that end a location or are removed are marks. -/
theorem isMark_of_ends {c : Char} (hc : endsNetloc c ∨ isRemoved c) : IsMark c := by
  have hascii : isAscii c := by
    refine decide_eq_true ?_
    rcases hc with hends | hremoved
    · simp only [endsNetloc, Bool.or_eq_true, decide_eq_true_eq] at hends
      rcases hends with (rfl | rfl) | rfl <;> decide
    · simp only [isRemoved, Bool.or_eq_true, decide_eq_true_eq] at hremoved
      omega
  exact ⟨hascii, forall_ascii (fun c => endsNetloc c ∨ isRemoved c → ¬ c.isAlpha)
    (by decide +kernel) hascii hc⟩

namespace Lowered

variable {text out u v : List Char} {d : Char}

/-- A mark comes from itself only. -/
theorem mem_of_mem (h : Lowered text out) (hd : IsMark d) (hmem : d ∈ out) : d ∈ text := by
  induction h with
  | nil => exact hmem
  | @ascii c rest out hc _ ih =>
      rcases List.mem_cons.mp hmem with rfl | hmem
      · rw [(toLower_spec hc).2.1 fun hletter => hd.2 ((toLower_spec hc).1.mpr hletter)]
        exact List.mem_cons_self
      · exact List.mem_cons_of_mem _ (ih hmem)
  | other _ _ hpiece _ ih =>
      rcases List.mem_append.mp hmem with hmem | hmem
      · exact absurd (hpiece d hmem hd.1) hd.2
      · exact List.mem_cons_of_mem _ (ih hmem)

/-- A mark stays. -/
theorem mem (h : Lowered text out) (hd : IsMark d) (hmem : d ∈ text) : d ∈ out := by
  induction h with
  | nil => exact hmem
  | ascii hc _ ih =>
      rcases List.mem_cons.mp hmem with rfl | hmem
      · rw [(toLower_spec hc).2.1 hd.2]
        exact List.mem_cons_self
      · exact List.mem_cons_of_mem _ (ih hmem)
  | other hc _ _ _ ih =>
      rcases List.mem_cons.mp hmem with rfl | hmem
      · exact absurd hd.1 hc
      · exact List.mem_append_right _ (ih hmem)

/-- Only the empty text is lowered to it. -/
theorem eq_nil (h : Lowered text []) : text = [] := by
  generalize hout : ([] : List Char) = out at h
  cases h with
  | nil => rfl
  | ascii => cases hout
  | other _ hne => exact absurd (List.append_eq_nil_iff.mp hout.symm).1 hne

/-- A text whose lower case has a mark is cut where the mark is. -/
theorem cut (h : Lowered text (u ++ d :: v)) (hd : IsMark d) :
    ∃ t t', text = t ++ d :: t' ∧ Lowered t u ∧ Lowered t' v := by
  generalize hout : u ++ d :: v = out at h
  induction h generalizing u with
  | nil => cases List.append_eq_nil_iff.mp hout |>.2
  | @ascii c rest out hc hrest ih =>
      cases u with
      | nil =>
          obtain ⟨rfl, rfl⟩ := List.cons.inj hout
          have hsame := (toLower_spec hc).2.1 fun hletter => hd.2 ((toLower_spec hc).1.mpr hletter)
          exact ⟨[], rest, by rw [hsame, List.nil_append], .nil, hrest⟩
      | cons first u =>
          obtain ⟨rfl, rfl⟩ := List.cons.inj hout
          obtain ⟨t, t', rfl, ht, ht'⟩ := ih rfl
          exact ⟨c :: t, t', rfl, .ascii hc ht, ht'⟩
  | @other c rest piece out hc hne hpiece hrest ih =>
      have hmark : ∃ w, u = piece ++ w ∧ out = w ++ d :: v := by
        rcases List.append_eq_append_iff.mp hout with ⟨w, hpiece', hv⟩ | ⟨w, hu, hv⟩
        · cases w with
          | nil => exact ⟨[], by simpa using hpiece'.symm, by simpa using hv.symm⟩
          | cons first w =>
              obtain ⟨rfl, -⟩ := List.cons.inj hv
              have hmem : d ∈ piece := hpiece' ▸ List.mem_append_right u List.mem_cons_self
              exact absurd (hpiece d hmem hd.1) hd.2
        · exact ⟨w, hu, hv⟩
      obtain ⟨w, rfl, rfl⟩ := hmark
      obtain ⟨t, t', rfl, ht, ht'⟩ := ih rfl
      exact ⟨c :: t, t', rfl, .other hc hne hpiece ht, ht'⟩

/-- Two marks side by side come from two marks side by side. -/
theorem pair_of_pair (h : Lowered text out) (hd : IsMark d) (hpair : [d, d] <:+: out) :
    [d, d] <:+: text := by
  obtain ⟨u, v, rfl⟩ := hpair
  rw [List.append_assoc] at h
  obtain ⟨t, t', rfl, -, ht'⟩ := h.cut hd
  obtain ⟨first, rest, rfl, hfirst, -⟩ := Lowered.cut (u := []) ht' hd
  rw [hfirst.eq_nil]
  exact ⟨t, rest, by simp⟩

/-- A scheme is lowered to a scheme. -/
theorem isScheme (h : Lowered text out) (hscheme : Urls.isScheme text) : Urls.isScheme out := by
  have hall : ∀ {text out}, Lowered text out → text.all isSchemeChar → out.all isSchemeChar := by
    intro text out h
    induction h with
    | nil => exact id
    | ascii _ _ ih =>
        simp only [List.all_cons, Bool.and_eq_true]
        exact fun hchars => ⟨(toLower_spec (isAscii_of_isSchemeChar hchars.1)).2.2 hchars.1,
          ih hchars.2⟩
    | other hc =>
        simp only [List.all_cons, Bool.and_eq_true]
        exact fun hchars => absurd (isAscii_of_isSchemeChar hchars.1) hc
  simp only [Urls.isScheme, Bool.and_eq_true] at hscheme ⊢
  refine ⟨?_, hall h hscheme.2⟩
  cases h with
  | nil => exact hscheme.1
  | ascii hc => exact (toLower_spec hc).1.mpr hscheme.1
  | other hc =>
      simp only [List.all_cons, Bool.and_eq_true] at hscheme
      exact absurd (isAscii_of_isSchemeChar hscheme.2.1) hc

end Lowered

/-! ## ASCII -/

/-- The library on ASCII texts, as far as an address with a colon is one of IPv6. -/
def Stdlib.ascii : Stdlib where
  lower := List.map Char.toLower
  nfkc := id
  ipAddress host := if ':' ∈ host then some .v6 else none

/-- Other characters are not lowered. -/
theorem toLower_eq_self {c : Char} (hc : ¬ isAscii c) : c.toLower = c :=
  dif_neg fun hrange => hc (isAscii_of_le 90 (by decide) hrange.2)

/-- A letter is lowered once. -/
theorem toLower_toLower (c : Char) : c.toLower.toLower = c.toLower := by
  by_cases hc : isAscii c
  · exact forall_ascii (fun c => c.toLower.toLower = c.toLower) (by decide +kernel) hc
  · rw [toLower_eq_self hc, toLower_eq_self hc]

/-- A text is lowered letter by letter. -/
theorem lowered_map_toLower (text : List Char) : Lowered text (text.map Char.toLower) := by
  induction text with
  | nil => exact .nil
  | cons c rest ih =>
      by_cases hc : isAscii c
      · exact .ascii hc ih
      · have hpiece : ∀ d ∈ [c.toLower], isAscii d → d.isAlpha := by
          intro d hd hascii
          rw [List.mem_singleton.mp hd, toLower_eq_self hc] at hascii
          exact absurd hascii hc
        exact .other hc (List.cons_ne_nil _ _) hpiece ih

/-- The library of ASCII is lawful. -/
theorem Stdlib.lawful_ascii : Stdlib.ascii.Lawful where
  lowered := lowered_map_toLower
  lower_lower text := by
    have htwice : (text.map Char.toLower).map Char.toLower = text.map Char.toLower := by
      rw [List.map_map]
      exact List.map_congr_left fun c _ => toLower_toLower c
    exact htwice
  lower_percent l r := List.map_append
  mem_nfkc text d _ := by simp [Stdlib.ascii]
  nfkc_ascii c _ := rfl
  nfkc_lower text c hc d hd hmem := by
    obtain rfl := List.mem_singleton.mp hmem
    exact ⟨d, (lowered_map_toLower text).mem_of_mem (isMark_of_mem_delimiters hd) hc, hmem⟩
  colon host h := by
    by_contra hcolon
    simp [Stdlib.ascii, hcolon] at h

/-! ## The parts of a URL -/

section RoundTrip

variable {std : Stdlib} {parts : SplitResult} {url : List Char}

/-- Parts that can be told apart in the URL that they make. -/
structure Shaped (std : Stdlib) (parts : SplitResult) : Prop where
  scheme : parts.scheme = [] ∨ isScheme parts.scheme
  lowered : std.lower parts.scheme = parts.scheme
  netloc : ∀ c ∈ parts.netloc, endsNetloc c = false
  path : parts.path = [] ∨ parts.path.head? = some '/'
  pathChars : '?' ∉ parts.path ∧ '#' ∉ parts.path
  query : '#' ∉ parts.query
  clean : ∀ c ∈ parts.netloc ++ parts.path ++ parts.query ++ parts.fragment,
    isRemoved c = false

/-- What the parts of a URL with a location look like. -/
structure Canonical (std : Stdlib) (parts : SplitResult) : Prop extends Shaped std parts where
  brackets : checkBrackets std parts.netloc = .ok ()
  normal : checkNetloc std parts.netloc = .ok ()

/-- A character of a scheme is not removed. -/
theorem isRemoved_of_isSchemeChar {c : Char} (hc : isSchemeChar c) : isRemoved c = false := by
  exact forall_ascii (fun c => isSchemeChar c → isRemoved c = false) (by decide +kernel)
    (isAscii_of_isSchemeChar hc) hc

/-- The steps of a splitting that ends. -/
theorem urlsplit_eq_ok (h : urlsplit std url = .ok parts) :
    ∃ rest, splitNetloc std (splitScheme std (clean url)).2 = .ok (parts.netloc, rest) ∧
      checkNetloc std parts.netloc = .ok () ∧
      parts =
        { scheme := (splitScheme std (clean url)).1, netloc := parts.netloc
          path := before '?' (before '#' rest)
          query := after '?' (before '#' rest)
          fragment := after '#' rest } := by
  unfold urlsplit at h
  generalize splitScheme std (clean url) = split at h ⊢
  obtain ⟨scheme, url'⟩ := split
  dsimp only at h ⊢
  obtain ⟨⟨netloc, rest⟩, hnetloc, h⟩ := ok_of_bind h
  obtain ⟨_, hnormal, h⟩ := ok_of_bind h
  cases h
  exact ⟨rest, hnetloc, hnormal, rfl⟩

/-- The location of a URL that has one, and what follows it. -/
theorem splitNetloc_eq_ok {netloc rest : List Char}
    (h : splitNetloc std url = .ok (netloc, rest)) (hne : netloc ≠ []) :
    checkBrackets std netloc = .ok () ∧ (∀ c ∈ netloc, endsNetloc c = false) ∧
      (∀ c ∈ rest.head?, endsNetloc c) ∧ netloc ⊆ url ∧ rest ⊆ url := by
  unfold splitNetloc at h
  split at h
  · obtain ⟨_, hcheck, h⟩ := ok_of_bind h
    cases h
    refine ⟨hcheck, ?_, ?_, ?_, ?_⟩
    · intro c hc
      simpa using List.mem_takeWhile_imp hc
    · intro c hc
      have hhead := List.head?_dropWhile_not (fun c => !endsNetloc c) (url.drop 2)
      rw [Option.mem_def.mp hc] at hhead
      simpa using hhead
    · exact ((List.takeWhile_sublist _).trans (List.drop_sublist _ _)).subset
    · exact ((List.dropWhile_sublist _).trans (List.drop_sublist _ _)).subset
  · cases h
    exact absurd rfl hne

/-- What is left beside a scheme is of the address. -/
theorem splitScheme_subset (std : Stdlib) (url : List Char) :
    (splitScheme std url).2 ⊆ url := by
  unfold splitScheme
  split
  · exact after_subset ':' url
  · exact fun _ hc => hc

/-- Nothing that is removed is left in a clean address. -/
theorem isRemoved_of_mem_clean {c : Char} (hc : c ∈ clean url) : isRemoved c = false := by
  simpa using (List.mem_filter.mp hc).2

/-- The path of what follows a location. -/
theorem path_of_rest {rest : List Char} (h : ∀ c ∈ rest.head?, endsNetloc c) :
    before '?' (before '#' rest) = [] ∨ (before '?' (before '#' rest)).head? = some '/' := by
  cases rest with
  | nil => exact .inl rfl
  | cons c rest =>
      have hc : endsNetloc c := h c rfl
      simp only [endsNetloc, Bool.or_eq_true, decide_eq_true_eq] at hc
      rcases hc with (rfl | rfl) | rfl
      · exact .inr rfl
      · exact .inl rfl
      · exact .inl rfl

/-- The scheme of a URL is a scheme, in lower case. -/
theorem scheme_of_urlsplit (hstd : std.Lawful) (h : urlsplit std url = .ok parts) :
    (parts.scheme = [] ∨ isScheme parts.scheme) ∧ std.lower parts.scheme = parts.scheme := by
  obtain ⟨rest, -, -, hparts⟩ := urlsplit_eq_ok h
  rw [hparts]
  dsimp only
  unfold splitScheme
  split
  · rename_i hscheme
    exact ⟨.inr ((hstd.lowered _).isScheme hscheme.2), hstd.lower_lower _⟩
  · refine ⟨.inl rfl, ?_⟩
    cases hlower : std.lower [] with
    | nil => rfl
    | cons c out =>
        have hlowered := hstd.lowered []
        rw [hlower] at hlowered
        cases hlowered

/-- The parts of a URL with a location are canonical. -/
theorem canonical_of_urlsplit (hstd : std.Lawful) (h : urlsplit std url = .ok parts)
    (hne : parts.netloc ≠ []) : Canonical std parts := by
  have hscheme := scheme_of_urlsplit hstd h
  obtain ⟨rest, hnetloc, hnormal, hparts⟩ := urlsplit_eq_ok h
  obtain ⟨hbrackets, hends, hrest, hnetlocSubset, hrestSubset⟩ := splitNetloc_eq_ok hnetloc hne
  have hclean {c : Char} (hc : c ∈ (splitScheme std (clean url)).2) : isRemoved c = false :=
    isRemoved_of_mem_clean (splitScheme_subset std _ hc)
  have hbeforeHash : before '#' rest ⊆ rest := before_subset '#' rest
  refine { toShaped := ?_, brackets := hbrackets, normal := hnormal }
  rw [hparts] at hscheme ⊢
  constructor
  · exact hscheme.1
  · exact hscheme.2
  · exact hends
  · exact path_of_rest hrest
  · exact ⟨not_mem_before '?' _, fun hmem => not_mem_before '#' rest (before_subset '?' _ hmem)⟩
  · exact fun hmem => not_mem_before '#' rest (after_subset '?' _ hmem)
  · intro c hc
    simp only [List.mem_append] at hc
    rcases hc with ((hc | hc) | hc) | hc
    · exact hclean (hnetlocSubset hc)
    · exact hclean (hrestSubset (hbeforeHash (before_subset '?' _ hc)))
    · exact hclean (hrestSubset (hbeforeHash (after_subset '?' _ hc)))
    · exact hclean (hrestSubset (after_subset '#' rest hc))

/-- A part with the mark before it, or nothing. -/
def marked (d : Char) (text : List Char) : List Char :=
  if text = [] then [] else d :: text

/-- The text of parts with a location. -/
theorem urlunsplit_eq (h : Shaped std parts) (hne : parts.netloc ≠ []) :
    urlunsplit parts =
      (if parts.scheme = [] then [] else parts.scheme ++ [':']) ++
        ('/' :: '/' :: (parts.netloc ++
          (parts.path ++ marked '?' parts.query ++ marked '#' parts.fragment))) := by
  have hpath : ¬ (parts.path ≠ [] ∧ parts.path.head? ≠ some '/') := fun hno =>
    h.path.elim hno.1 hno.2
  simp only [urlunsplit, joinNetloc, if_pos hne, if_neg hpath, marked]
  split <;> split <;> split <;> simp_all

/-- A text with a part after its mark is cut there. -/
theorem before_marked {d : Char} {text part : List Char} (h : d ∉ text) :
    before d (text ++ marked d part) = text := by
  unfold marked
  split
  · rw [List.append_nil, before_eq_self h]
  · exact before_append h

/-- A part that is marked is read back. -/
theorem after_marked {d : Char} {text part : List Char} (h : d ∉ text) :
    after d (text ++ marked d part) = part := by
  unfold marked
  split
  · rename_i hnil
    rw [List.append_nil, after_eq_nil h, hnil]
  · exact after_append h

/-- A character of neither the mark nor the part is not in the marked part. -/
theorem not_mem_marked {c d : Char} {part : List Char} (hne : c ≠ d) (h : c ∉ part) :
    c ∉ marked d part := by
  unfold marked
  split
  · exact List.not_mem_nil
  · exact fun hmem => (List.mem_cons.mp hmem).elim hne h

/-- What follows a location begins with one of the characters that end it. -/
theorem head?_of_shaped (h : Shaped std parts) :
    ∀ c ∈ (parts.path ++ marked '?' parts.query ++ marked '#' parts.fragment).head?,
      endsNetloc c := by
  intro c hc
  cases hpath : parts.path with
  | cons first rest =>
      have hfirst : first = '/' := by simpa [hpath] using h.path
      rw [hpath, List.append_assoc, List.cons_append, List.head?_cons, hfirst] at hc
      cases hc
      rfl
  | nil =>
      rw [hpath, List.nil_append] at hc
      unfold marked at hc
      split at hc
      · split at hc
        · cases hc
        · cases hc
          rfl
      · cases hc
        rfl

/-- A URL that is clean is not changed by cleaning. -/
theorem clean_eq_self {text : List Char} (hhead : ∀ c ∈ text.head?, 32 < c.toNat)
    (h : ∀ c ∈ text, isRemoved c = false) : clean text = text := by
  have hdrop : text.dropWhile (fun c => decide (c.toNat ≤ 32)) = text := by
    cases text with
    | nil => rfl
    | cons c rest =>
        exact List.dropWhile_cons_of_neg (by simpa using Nat.not_le.mpr (hhead c rfl))
  rw [clean, hdrop]
  exact List.filter_eq_self.mpr fun c hc => by rw [h c hc]; rfl

/-- A scheme has no colon. -/
theorem colon_notMem_scheme {scheme : List Char} (hscheme : isScheme scheme) : ':' ∉ scheme := by
  intro hmem
  simp only [isScheme, Bool.and_eq_true] at hscheme
  have hchar := List.all_eq_true.mp hscheme.2 ':' hmem
  revert hchar
  decide

/-- A scheme before its colon is split off. -/
theorem splitScheme_scheme {scheme rest : List Char} (hscheme : isScheme scheme)
    (hlower : std.lower scheme = scheme) :
    splitScheme std (scheme ++ ':' :: rest) = (scheme, rest) := by
  have hcolon := colon_notMem_scheme hscheme
  have hcond : ':' ∈ scheme ++ ':' :: rest ∧ isScheme (before ':' (scheme ++ ':' :: rest)) :=
    ⟨by simp, by rw [before_append hcolon]; exact hscheme⟩
  rw [splitScheme, if_pos hcond, before_append hcolon, after_append hcolon, hlower]

/-- What begins with a slash has no scheme. -/
theorem splitScheme_slash (rest : List Char) :
    splitScheme std ('/' :: rest) = ([], '/' :: rest) := by
  refine if_neg fun h => ?_
  have hbefore : before ':' ('/' :: rest) = '/' :: before ':' rest := rfl
  rw [hbefore] at h
  exact Bool.false_ne_true h.2

/-- A location is split off before what ends it. -/
theorem splitNetloc_netloc {netloc rest : List Char} (hchars : ∀ c ∈ netloc, endsNetloc c = false)
    (hrest : ∀ c ∈ rest.head?, endsNetloc c) :
    splitNetloc std ('/' :: '/' :: (netloc ++ rest)) = (do
      checkBrackets std netloc
      .ok (netloc, rest)) := by
  have hall : ∀ c ∈ netloc, (!endsNetloc c) = true := fun c hc => by rw [hchars c hc]; rfl
  have htake : (netloc ++ rest).takeWhile (fun c => !endsNetloc c) = netloc := by
    rw [List.takeWhile_append_of_pos hall]
    cases rest with
    | nil => simp
    | cons c rest =>
        rw [List.takeWhile_cons_of_neg (by simpa using hrest c rfl), List.append_nil]
  have hdrop : (netloc ++ rest).dropWhile (fun c => !endsNetloc c) = rest := by
    rw [List.dropWhile_append_of_pos hall]
    cases rest with
    | nil => rfl
    | cons c rest => rw [List.dropWhile_cons_of_neg (by simpa using hrest c rfl)]
  have hslashes : List.take 2 ('/' :: '/' :: (netloc ++ rest)) = ['/', '/'] := rfl
  have hbody : List.drop 2 ('/' :: '/' :: (netloc ++ rest)) = netloc ++ rest := rfl
  rw [splitNetloc, if_pos hslashes, hbody, htake, hdrop]

/-- The first character of a scheme, and of any letters, is no blank. -/
theorem lt_of_isAlpha {c : Char} (hc : c.isAlpha) : 32 < c.toNat := by
  have hascii : isAscii c :=
    isAscii_of_isSchemeChar (by simp [isSchemeChar, Char.isAlphanum, hc])
  exact forall_ascii (fun c => c.isAlpha → 32 < c.toNat) (by decide +kernel) hascii hc

/-- Nothing is removed from an address that is put together. -/
theorem clean_urlunsplit (h : Shaped std parts) (hne : parts.netloc ≠ []) :
    clean (urlunsplit parts) = urlunsplit parts := by
  have hmarked {d : Char} {part : List Char} (hd : isRemoved d = false)
      (hpart : ∀ c ∈ part, isRemoved c = false) : ∀ c ∈ marked d part, isRemoved c = false := by
    intro c hc
    unfold marked at hc
    split at hc
    · cases hc
    · rcases List.mem_cons.mp hc with rfl | hc
      · exact hd
      · exact hpart c hc
  have hparts := h.clean
  simp only [List.mem_append] at hparts
  rw [urlunsplit_eq h hne]
  refine clean_eq_self ?_ ?_
  · intro c hc
    split at hc
    · cases hc
      decide
    · rename_i hscheme
      have hletters := h.scheme.resolve_left hscheme
      simp only [isScheme, Bool.and_eq_true] at hletters
      cases hfirst : parts.scheme with
      | nil => exact absurd hfirst hscheme
      | cons first rest =>
          rw [hfirst] at hc hletters
          cases hc
          exact lt_of_isAlpha hletters.1
  · intro c hc
    rcases List.mem_append.mp hc with hc | hc
    · split at hc
      · cases hc
      · rename_i hscheme
        have hletters := h.scheme.resolve_left hscheme
        simp only [isScheme, Bool.and_eq_true] at hletters
        rcases List.mem_append.mp hc with hc | hc
        · exact isRemoved_of_isSchemeChar (List.all_eq_true.mp hletters.2 c hc)
        · rw [List.mem_singleton.mp hc]
          decide
    · simp only [List.mem_cons, List.mem_append] at hc
      rcases hc with rfl | rfl | hc | (hc | hc) | hc
      · decide
      · decide
      · exact hparts c (.inl (.inl (.inl hc)))
      · exact hparts c (.inl (.inl (.inr hc)))
      · exact hmarked (by decide) (fun c hc => hparts c (.inl (.inr hc))) c hc
      · exact hmarked (by decide) (fun c hc => hparts c (.inr hc)) c hc

/-- The scheme of an address that is put together is read back. -/
theorem splitScheme_urlunsplit (h : Shaped std parts) (hne : parts.netloc ≠ []) :
    splitScheme std (urlunsplit parts) = (parts.scheme, '/' :: '/' :: (parts.netloc ++
      (parts.path ++ marked '?' parts.query ++ marked '#' parts.fragment))) := by
  rw [urlunsplit_eq h hne]
  split
  · rename_i hscheme
    rw [hscheme, List.nil_append, splitScheme_slash]
  · rename_i hscheme
    rw [List.append_assoc, List.singleton_append,
      splitScheme_scheme (h.scheme.resolve_left hscheme) h.lowered]

/-- Parts that can be told apart are read back from the URL that they make, if their location
is accepted. -/
theorem urlsplit_urlunsplit (h : Shaped std parts) (hne : parts.netloc ≠ []) :
    urlsplit std (urlunsplit parts) = (do
      checkBrackets std parts.netloc
      checkNetloc std parts.netloc
      .ok parts) := by
  have hhash : '#' ∉ parts.path ++ marked '?' parts.query := fun hmem =>
    (List.mem_append.mp hmem).elim h.pathChars.2 (not_mem_marked (by decide) h.query)
  unfold urlsplit
  rw [clean_urlunsplit h hne, splitScheme_urlunsplit h hne]
  dsimp only [bind, Except.bind]
  rw [splitNetloc_netloc h.netloc (head?_of_shaped h)]
  dsimp only [bind, Except.bind]
  cases checkBrackets std parts.netloc with
  | error e => rfl
  | ok _ =>
      dsimp only
      rw [before_marked hhash, after_marked hhash, before_marked h.pathChars.1,
        after_marked h.pathChars.1]

/-- An address that is put together of canonical parts is split into them. -/
theorem Canonical.urlsplit_urlunsplit (h : Canonical std parts) (hne : parts.netloc ≠ []) :
    urlsplit std (urlunsplit parts) = .ok parts := by
  rw [Urls.urlsplit_urlunsplit h.toShaped hne, h.brackets, h.normal]
  rfl

/-- What is read back is what was put together. -/
theorem Shaped.eq_of_urlsplit (h : Shaped std parts) (hne : parts.netloc ≠ [])
    {back : SplitResult} (hback : urlsplit std (urlunsplit parts) = .ok back) :
    back = parts ∧ checkBrackets std parts.netloc = .ok () := by
  rw [Urls.urlsplit_urlunsplit h hne] at hback
  obtain ⟨_, hbrackets, hback⟩ := ok_of_bind hback
  obtain ⟨_, _, hback⟩ := ok_of_bind hback
  cases hback
  exact ⟨rfl, hbrackets⟩

end RoundTrip

/-! ## Hosts -/

section Hosts

variable {std : Stdlib} {host : List Char} {d : Char}

/-- A host is what is before its zone, and its zone with the mark. -/
theorem before_append_zone (host : List Char) :
    before '%' host ++ host.dropWhile (· ≠ '%') = host :=
  List.takeWhile_append_dropWhile

/-- A host that is lowered keeps its marks. -/
theorem mem_lowerHost (hstd : std.Lawful) (hd : IsMark d) :
    d ∈ lowerHost std host ↔ d ∈ host := by
  have hlowered := hstd.lowered (before '%' host)
  have hbefore : d ∈ std.lower (before '%' host) ↔ d ∈ before '%' host :=
    ⟨hlowered.mem_of_mem hd, hlowered.mem hd⟩
  rw [lowerHost, List.mem_append, hbefore, ← List.mem_append, before_append_zone]

/-- A host that is lowered is not empty. -/
theorem lowerHost_ne_nil (hstd : std.Lawful) (hne : host ≠ []) : lowerHost std host ≠ [] := by
  intro hnil
  obtain ⟨hlower, hzone⟩ := List.append_eq_nil_iff.mp hnil
  have hlowered := hstd.lowered (before '%' host)
  rw [hlower] at hlowered
  refine hne ?_
  rw [← before_append_zone host, hlowered.eq_nil, hzone, List.append_nil]

/-- A host without a zone is lowered as a whole. -/
theorem lowerHost_of_notMem (h : '%' ∉ host) : lowerHost std host = std.lower host := by
  have hzone : host.dropWhile (· ≠ '%') = [] :=
    List.dropWhile_eq_nil_iff.mpr (decide_ne_of_notMem h)
  rw [lowerHost, before_eq_self h, hzone, List.append_nil]

/-- The zone of a host is not lowered. -/
theorem lowerHost_append {l r : List Char} (h : '%' ∉ l) :
    lowerHost std (l ++ '%' :: r) = std.lower l ++ '%' :: r := by
  rw [lowerHost, before_append h, List.dropWhile_append_of_pos (decide_ne_of_notMem h),
    List.dropWhile_cons_of_neg (by simp)]

/-- Lowering a text makes no percent sign. -/
theorem percent_notMem_lower (hstd : std.Lawful) {text : List Char} (h : '%' ∉ text) :
    '%' ∉ std.lower text := fun hmem =>
  h ((hstd.lowered text).mem_of_mem (by decide) hmem)

/-- A host is lowered once. -/
theorem lowerHost_lowerHost (hstd : std.Lawful) :
    lowerHost std (lowerHost std host) = lowerHost std host := by
  by_cases hzone : '%' ∈ host
  · obtain ⟨first, rest, rfl, hfirst⟩ := List.eq_append_cons_of_mem hzone
    rw [lowerHost_append hfirst, lowerHost_append (percent_notMem_lower hstd hfirst),
      hstd.lower_lower]
  · rw [lowerHost_of_notMem hzone, lowerHost_of_notMem (percent_notMem_lower hstd hzone),
      hstd.lower_lower]

/-- With its zone a host is lowered as any text. -/
theorem lower_lowerHost (hstd : std.Lawful) : std.lower (lowerHost std host) = std.lower host := by
  by_cases hzone : '%' ∈ host
  · obtain ⟨first, rest, rfl, hfirst⟩ := List.eq_append_cons_of_mem hzone
    rw [lowerHost_append hfirst, hstd.lower_percent, hstd.lower_percent, hstd.lower_lower]
  · rw [lowerHost_of_notMem hzone, hstd.lower_lower]

/-- No character of a lowered host brings in a delimiter that none of the host does. -/
theorem nfkc_lowerHost (hstd : std.Lawful) {c : Char} (hc : c ∈ lowerHost std host)
    (hd : d ∈ delimiters) (hmem : d ∈ std.nfkc [c]) : ∃ c' ∈ host, d ∈ std.nfkc [c'] := by
  rcases List.mem_append.mp hc with hc | hc
  · obtain ⟨c', hc', hmem'⟩ := hstd.nfkc_lower _ c hc d hd hmem
    exact ⟨c', before_subset '%' host hc', hmem'⟩
  · exact ⟨c, (List.dropWhile_sublist _).subset hc, hmem⟩

end Hosts

/-! ## Locations -/

section Locations

variable {std : Stdlib} {parts : SplitResult} {netloc info host : List Char} {port : Option Nat}

/-- A location is accepted when none of its characters brings in a delimiter, those apart
that are delimiters themselves. -/
theorem checkNetloc_eq_ok_iff (hstd : std.Lawful) (hslash : '/' ∉ netloc) :
    checkNetloc std netloc = .ok () ↔ ∀ c ∈ netloc, c ∉ ['@', ':', '#', '?'] →
      ∀ d ∈ delimiters, d ∉ std.nfkc [c] := by
  have hself {d : Char} (hd : d ∈ delimiters) (hmem : d ∈ netloc) : d ∈ ['@', ':', '#', '?'] := by
    have hne : d ≠ '/' := by
      rintro rfl
      exact hslash hmem
    revert hd
    simp only [delimiters, List.mem_cons, List.not_mem_nil, or_false]
    tauto
  unfold checkNetloc
  split
  · rename_i hascii
    refine iff_of_true rfl fun c hc hother d hd hmem => ?_
    rw [hstd.nfkc_ascii c (List.all_eq_true.mp hascii c hc), List.mem_singleton] at hmem
    rw [hmem] at hd
    exact hother (hself hd hc)
  · have hfilter {c : Char} : c ∈ netloc.filter (fun c => c ∉ ['@', ':', '#', '?']) ↔
        c ∈ netloc ∧ c ∉ ['@', ':', '#', '?'] := by
      rw [List.mem_filter, decide_eq_true_eq]
    have hiff : (∃ d ∈ delimiters, d ∈ std.nfkc (netloc.filter fun c => c ∉ ['@', ':', '#', '?'])) ↔
        ∃ c ∈ netloc, c ∉ ['@', ':', '#', '?'] ∧ ∃ d ∈ delimiters, d ∈ std.nfkc [c] := by
      constructor
      · rintro ⟨d, hd, hmem⟩
        obtain ⟨c, hc, hmem⟩ := (hstd.mem_nfkc _ d hd).mp hmem
        exact ⟨c, (hfilter.mp hc).1, (hfilter.mp hc).2, d, hd, hmem⟩
      · rintro ⟨c, hc, hother, d, hd, hmem⟩
        exact ⟨d, hd, (hstd.mem_nfkc _ d hd).mpr ⟨c, hfilter.mpr ⟨hc, hother⟩, hmem⟩⟩
    dsimp only
    split
    · rename_i hsame
      refine iff_of_true rfl fun c hc hother d hd hmem => ?_
      obtain ⟨d, hd, hmem⟩ := hiff.mpr ⟨c, hc, hother, d, hd, hmem⟩
      rw [← hsame] at hmem
      exact (hfilter.mp hmem).2 (hself hd (hfilter.mp hmem).1)
    · split
      · rename_i hany
        refine iff_of_false (fun h => by cases h) fun hnone => ?_
        simp only [List.any_eq_true, decide_eq_true_eq] at hany
        obtain ⟨c, hc, hother, d, hd, hmem⟩ := hiff.mp hany
        exact hnone c hc hother d hd hmem
      · rename_i hany
        refine iff_of_true rfl fun c hc hother d hd hmem => ?_
        simp only [List.any_eq_true, decide_eq_true_eq] at hany
        exact hany (hiff.mpr ⟨c, hc, hother, d, hd, hmem⟩)

/-- A port is written with a colon and digits, or not at all. -/
theorem mem_portSuffix {c : Char} (hc : c ∈ portSuffix port) : c = ':' ∨ c.isDigit := by
  cases port with
  | none => cases hc
  | some p =>
      rw [portSuffix] at hc
      split at hc
      · cases hc
      · exact (List.mem_cons.mp hc).imp_right (Nat.isDigit_of_mem_toDigits (by decide) (by decide))

/-- A port that is written has a digit. -/
theorem portSuffix_spec (port : Option Nat) :
    ((port = none ∨ port = some 0) ∧ portSuffix port = []) ∨
      ∃ p, p ≠ 0 ∧ port = some p ∧ portSuffix port = ':' :: Nat.toDigits 10 p := by
  cases port with
  | none => exact .inl ⟨.inl rfl, rfl⟩
  | some p =>
      by_cases hzero : p = 0
      · exact .inl ⟨.inr (by rw [hzero]), by rw [portSuffix, if_pos hzero]⟩
      · exact .inr ⟨p, hzero, rfl, by rw [portSuffix, if_neg hzero]⟩

/-- A number is written without a colon. -/
theorem colon_notMem_toDigits (n : Nat) : ':' ∉ Nat.toDigits 10 n := by
  intro hmem
  have hdigit := Nat.isDigit_of_mem_toDigits (by decide) (by decide) hmem
  revert hdigit
  decide

/-- Two ports that are written alike are the same, or none of them is written. -/
theorem portSuffix_inj {port port' : Option Nat} (h : portSuffix port = portSuffix port') :
    port = port' ∨ (port = none ∧ port' = some 0) ∨ (port = some 0 ∧ port' = none) := by
  rcases portSuffix_spec port with ⟨hport, hsuffix⟩ | ⟨p, -, rfl, hsuffix⟩
  all_goals rcases portSuffix_spec port' with ⟨hport', hsuffix'⟩ | ⟨p', -, rfl, hsuffix'⟩
  all_goals rw [hsuffix, hsuffix'] at h
  · rcases hport with rfl | rfl
    all_goals rcases hport' with rfl | rfl
    all_goals simp
  · cases h
  · cases h
  · have hdigits := (List.cons.inj h).2
    rw [← Nat.ofDigitChars_ten_toDigits (n := p), hdigits, Nat.ofDigitChars_ten_toDigits]
    exact .inl rfl

/-- Two hosts with their ports that are written alike: the hosts are, and the ports, or one of
the hosts ends as the other with its port. -/
theorem append_portSuffix {host host' : List Char} {port port' : Option Nat}
    (h : host ++ portSuffix port = host' ++ portSuffix port') :
    (host = host' ∧ portSuffix port = portSuffix port') ∨
      (∃ p, p ≠ 0 ∧ port' = some p ∧ (port = none ∨ port = some 0) ∧
        host = host' ++ ':' :: Nat.toDigits 10 p) ∨
      ∃ p, p ≠ 0 ∧ port = some p ∧ (port' = none ∨ port' = some 0) ∧
        host' = host ++ ':' :: Nat.toDigits 10 p := by
  rcases portSuffix_spec port with ⟨hport, hsuffix⟩ | ⟨p, hp, hport, hsuffix⟩
  all_goals rcases portSuffix_spec port' with ⟨hport', hsuffix'⟩ | ⟨p', hp', hport', hsuffix'⟩
  all_goals rw [hsuffix, hsuffix'] at h ⊢
  · exact .inl ⟨List.append_cancel_right h, rfl⟩
  · rw [List.append_nil] at h
    exact .inr (.inl ⟨p', hp', hport', hport, h⟩)
  · rw [List.append_nil] at h
    exact .inr (.inr ⟨p, hp, hport, hport', h.symm⟩)
  · have hhost := congrArg (beforeLast ':') h
    have hdigits := congrArg (afterLast ':') h
    rw [beforeLast_append (colon_notMem_toDigits p),
      beforeLast_append (colon_notMem_toDigits p')] at hhost
    rw [afterLast_append (colon_notMem_toDigits p),
      afterLast_append (colon_notMem_toDigits p')] at hdigits
    exact .inl ⟨hhost, by rw [hdigits]⟩

/-- The host of a location, as it was written. -/
theorem hostinfo_location (hat : '@' ∉ host) (hopen : '[' ∉ host) (hcolon : ':' ∉ host) :
    hostinfo (info ++ '@' :: (host ++ portSuffix port)) = (host, (portSuffix port).tail) := by
  have hother {d : Char} (hd : d ∉ host) (hmark : d ≠ ':' ∧ ¬ d.isDigit) :
      d ∉ host ++ portSuffix port := fun hmem =>
    (List.mem_append.mp hmem).elim hd fun hsuffix =>
      (mem_portSuffix hsuffix).elim hmark.1 hmark.2
  rw [hostinfo, afterLast_append (hother hat (by decide)),
    if_neg (hother hopen (by decide))]
  rcases portSuffix_spec port with ⟨-, hsuffix⟩ | ⟨p, -, -, hsuffix⟩
  · rw [hsuffix, List.append_nil, before_eq_self hcolon, after_eq_nil hcolon, List.tail_nil]
  · rw [hsuffix, before_append hcolon, after_append hcolon, List.tail_cons]

/-- A host without brackets has no colon. -/
theorem colon_notMem_hostinfo (hopen : '[' ∉ afterLast '@' netloc) :
    ':' ∉ (hostinfo netloc).1 := by
  rw [hostinfo, if_neg hopen]
  exact not_mem_before ':' _

/-- The host is of what stands after the user. -/
theorem hostinfo_subset (netloc : List Char) : (hostinfo netloc).1 ⊆ afterLast '@' netloc := by
  rw [hostinfo]
  split
  · exact fun _ hc => after_subset '[' _ (before_subset ']' _ hc)
  · exact before_subset ':' _

/-- A host has no closing bracket, unless it has no opening one. -/
theorem close_notMem_hostinfo (hopen : '[' ∈ afterLast '@' netloc) :
    ']' ∉ (hostinfo netloc).1 := by
  rw [hostinfo, if_pos hopen]
  exact not_mem_before ']' _

namespace SplitResult

/-- A host name is the host, which is not empty, in lower case. -/
theorem hostname_eq_some {host : List Char} (h : parts.hostname std = some host) :
    (hostinfo parts.netloc).1 ≠ [] ∧ host = lowerHost std (hostinfo parts.netloc).1 := by
  rw [hostname] at h
  split at h
  · cases h
  · rename_i hne
    exact ⟨hne, (Option.some.inj h).symm⟩

/-- A port is in range. -/
theorem port_le {p : Nat} (h : parts.port = .ok (some p)) : p ≤ 65535 := by
  rw [port] at h
  dsimp only at h
  split at h
  · cases h
  · split at h
    · split at h
      · rename_i hle
        cases h
        exact hle
      · cases h
    · cases h

/-- A port that was written is read back. -/
theorem port_of_portSuffix {port : Option Nat}
    (htext : (hostinfo parts.netloc).2 = (portSuffix port).tail)
    (hle : ∀ p ∈ port, p ≤ 65535) : parts.port = .ok (port.filter (· ≠ 0)) := by
  rw [SplitResult.port, htext]
  dsimp only
  rcases portSuffix_spec port with ⟨hport, hsuffix⟩ | ⟨p, hp, rfl, hsuffix⟩
  · rw [hsuffix, List.tail_nil, if_pos rfl]
    rcases hport with rfl | rfl <;> rfl
  · have hdigits : (Nat.toDigits 10 p).all Char.isDigit := List.all_eq_true.mpr fun c hc =>
      Nat.isDigit_of_mem_toDigits (by decide) (by decide) hc
    rw [hsuffix, List.tail_cons, if_neg Nat.toDigits_ne_nil, if_pos hdigits,
      Nat.ofDigitChars_ten_toDigits, if_pos (hle p rfl), Option.filter_some,
      if_pos (decide_eq_true hp)]

end SplitResult

end Locations

end Urls

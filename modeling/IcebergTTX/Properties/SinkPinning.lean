import IcebergTTX.Services.SinkPinning

/-!
# What pinning leaves

A secret goes where the environment has it exactly when the two destinations are not printed
alike: a bracketed literal is printed without its brackets, so that it may end with what another
has for its port; a port zero is not printed; and the case of a zone is not.

Main results:

- Definition {lit}`destination`: what a value names.
- Definition {lit}`Confused`: different destinations with one origin.
- Theorem {lit}`validateChanges_keeps`: what an edit of a sink can do to its destination.
- Theorem {lit}`hostChanged_eq_true_iff`: the moves that the audit trail is told of.
- Theorem {lit}`pinned_iff`: pinning holds unless the two are confused.
-/

namespace IcebergTTX.SinkPinning

open Urls

/-! ## Destinations -/

/-- What a value names: a host, and a scheme and perhaps a port if it is a URL. -/
structure Destination where
  scheme : Option (List Char)
  host : List Char
  port : Option Nat
deriving DecidableEq

/-- The destination of a value, if it is not blank and can be taken apart. -/
def destination (std : Stdlib) (value : Option String) : Option Destination :=
  let text := (strip (value.getD "")).toList
  if text = [] then none
  else if ¬ ['/', '/'] <:+: text then
    some { scheme := none, host := lowerHost std text, port := none }
  else do
    let parts ← (urlsplit std text).toOption
    let port ← parts.port.toOption
    some { scheme := some parts.scheme, host := (parts.hostname std).getD [], port }

/-- If a credential is present, a new value that is not blank and passes the check names what
the value of the environment does. -/
def Pinned (std : Stdlib) (new env : Option String) (sink : Sink) : Prop :=
  strip (new.getD "") ≠ "" → checkPinned std new env true sink = .ok () →
    ∃ d, destination std new = some d ∧ destination std env = some d

section Confusion

variable (std : Stdlib) (a b : Destination)

/-- The host of the first is the one of the second with its port, and the first has no port, or
port zero. -/
def Swallows : Prop :=
  ∃ p, p ≠ 0 ∧ b.port = some p ∧ (a.port = none ∨ a.port = some 0) ∧
    std.lower a.host = std.lower b.host ++ ':' :: Nat.toDigits 10 p

/-- Two destinations that differ and have one origin. -/
inductive Confused : Prop where
  /-- The port of one is the end of the other's literal. -/
  | literal (scheme : a.scheme = b.scheme) (swallows : Swallows std a b ∨ Swallows std b a)
  /-- A port zero, and no port. -/
  | zeroPort (scheme : a.scheme = b.scheme) (host : std.lower a.host = std.lower b.host)
      (port : (a.port = none ∧ b.port = some 0) ∨ (a.port = some 0 ∧ b.port = none))
  /-- Zones that differ in their case. -/
  | zoneCase (scheme : a.scheme = b.scheme) (port : a.port = b.port)
      (host : std.lower a.host = std.lower b.host) (different : a.host ≠ b.host)

end Confusion

/-! ## What is printed -/

section Printing

variable {std : Stdlib} {value : Option String} {a b d : Destination}

/-- What stands before a host. -/
def schemePrefix : Option (List Char) → List Char
  | none => []
  | some scheme => scheme ++ [':', '/', '/']

/-- The origin of a destination. -/
def Destination.printed (std : Stdlib) (d : Destination) : List Char :=
  schemePrefix d.scheme ++ (std.lower d.host ++ portSuffix d.port)

/-- What the destination of a value looks like. -/
structure Destination.WellFormed (std : Stdlib) (d : Destination) : Prop where
  scheme : ∀ scheme ∈ d.scheme, ':' ∉ scheme
  barePort : d.scheme = none → d.port = none
  bareHost : d.scheme = none → std.lower d.host ≠ [] ∧ ¬ ['/', '/'] <:+: std.lower d.host

theorem toOption_eq_some_iff {α : Type} {p : Except ValueError α} {a : α} :
    p.toOption = some a ↔ p = .ok a := by
  cases p with
  | error e => simp [Except.toOption]
  | ok a' => simp [Except.toOption]

/-- A value that names a destination is printed as its origin. -/
theorem origin_of_destination (hstd : std.Lawful) (h : destination std value = some d) :
    strip (value.getD "") ≠ "" ∧ origin std value = .ok (d.printed std) ∧ d.WellFormed std := by
  unfold destination at h
  unfold origin
  generalize strip (value.getD "") = text at h ⊢
  dsimp only at h ⊢
  split at h
  · cases h
  · rename_i hne
    have htext : text ≠ "" := fun hempty => hne (by rw [hempty]; rfl)
    rw [if_neg hne]
    split at h
    · rename_i hbare
      cases h
      have hlower : std.lower (lowerHost std text.toList) = std.lower text.toList :=
        lower_lowerHost hstd
      rw [if_pos hbare]
      refine ⟨htext, ?_, ?_, ?_, ?_⟩
      · simp only [Destination.printed, schemePrefix, portSuffix, hlower, List.nil_append,
          List.append_nil]
      · intro scheme hscheme
        cases hscheme
      · exact fun _ => rfl
      · intro _
        rw [hlower]
        refine ⟨fun hnil => hne ?_, fun hpair => hbare ?_⟩
        · have hlowered := hstd.lowered text.toList
          rw [hnil] at hlowered
          exact hlowered.eq_nil
        · exact (hstd.lowered text.toList).pair_of_pair (by decide) hpair
    · rename_i hurl
      obtain ⟨parts, hparts, h⟩ := Option.bind_eq_some_iff.mp h
      obtain ⟨port, hport, h⟩ := Option.bind_eq_some_iff.mp h
      cases h
      rw [toOption_eq_some_iff] at hparts hport
      obtain ⟨hscheme, hlower⟩ := scheme_of_urlsplit hstd hparts
      rw [if_neg hurl, hparts]
      dsimp only [bind, Except.bind]
      rw [hport, hlower]
      refine ⟨htext, ?_, ?_, ?_, ?_⟩
      · simp [Destination.printed, schemePrefix]
      · intro scheme hmem
        obtain rfl := Option.some.inj hmem
        rcases hscheme with hnil | hscheme
        · rw [hnil]
          exact List.not_mem_nil
        · exact colon_notMem_scheme hscheme
      · exact fun hbare => by cases hbare
      · exact fun hbare => by cases hbare

/-- A value with an origin names a destination, unless it is blank. -/
theorem destination_of_origin {o : List Char} (hne : strip (value.getD "") ≠ "")
    (h : origin std value = .ok o) : ∃ d, destination std value = some d := by
  unfold origin at h
  unfold destination
  generalize strip (value.getD "") = text at h hne ⊢
  have htext : text.toList ≠ [] := fun hnil => hne (String.toList_eq_nil_iff.mp hnil)
  dsimp only at h ⊢
  rw [if_neg htext] at h ⊢
  split at h
  · rename_i hbare
    exact ⟨_, if_pos hbare⟩
  · rename_i hurl
    obtain ⟨parts, hparts, h⟩ := ok_of_bind h
    obtain ⟨port, hport, -⟩ := ok_of_bind h
    refine ⟨{ scheme := some parts.scheme, host := (parts.hostname std).getD [], port }, ?_⟩
    rw [if_neg hurl, hparts]
    dsimp only [Except.toOption, bind, Option.bind]
    rw [hport]

/-- Destinations whose hosts and ports are written alike are the same or confused. -/
theorem eq_or_confused (hscheme : a.scheme = b.scheme) (hhost : std.lower a.host = std.lower b.host)
    (hport : portSuffix a.port = portSuffix b.port) : a = b ∨ Confused std a b := by
  rcases portSuffix_inj hport with hport | hport
  · by_cases hsame : a.host = b.host
    · left
      cases a
      cases b
      simp_all
    · exact .inr (.zoneCase hscheme hport hhost hsame)
  · exact .inr (.zeroPort hscheme hhost hport)

/-- No origin of a URL is one of a bare host. -/
theorem printed_bare_ne (ha : a.WellFormed std) (hscheme : a.scheme = none)
    (hurl : b.scheme ≠ none) : a.printed std ≠ b.printed std := by
  obtain ⟨scheme, hscheme'⟩ := Option.ne_none_iff_exists'.mp hurl
  have hsuffix : portSuffix a.port = [] := by rw [ha.barePort hscheme, portSuffix]
  intro h
  simp only [Destination.printed, hscheme, hscheme', hsuffix, schemePrefix, List.nil_append,
    List.append_nil] at h
  refine (ha.bareHost hscheme).2 ?_
  rw [h]
  exact ⟨scheme ++ [':'], std.lower b.host ++ portSuffix b.port, by simp⟩

/-- An origin tells the scheme. -/
theorem scheme_of_printed (ha : a.WellFormed std) (hb : b.WellFormed std)
    (h : a.printed std = b.printed std) : a.scheme = b.scheme := by
  cases hscheme : a.scheme with
  | none =>
      by_contra hurl
      exact printed_bare_ne ha hscheme (Ne.symm hurl) h
  | some scheme =>
      cases hscheme' : b.scheme with
      | none => exact absurd h.symm (printed_bare_ne hb hscheme' (by rw [hscheme]; simp))
      | some scheme' =>
          have hbefore := congrArg (before ':') h
          simp only [Destination.printed, hscheme, hscheme', schemePrefix, List.append_assoc,
            List.cons_append] at hbefore
          rw [before_append (ha.scheme scheme hscheme), before_append (hb.scheme scheme' hscheme')]
            at hbefore
          rw [hbefore]

/-- Confused destinations differ. -/
theorem Confused.ne (h : Confused std a b) : a ≠ b := by
  rintro rfl
  cases h with
  | literal _ swallows =>
      rcases swallows with ⟨p, hp, hport, hnone | hzero, -⟩ | ⟨p, hp, hport, hnone | hzero, -⟩
      all_goals simp_all
  | zeroPort _ _ port => rcases port with ⟨hnone, hzero⟩ | ⟨hzero, hnone⟩ <;> simp_all
  | zoneCase _ _ _ different => exact different rfl

/-- A host that ends as another one with its port is printed as that one is. -/
theorem Swallows.alike (h : Swallows std a b) :
    std.lower a.host ++ portSuffix a.port = std.lower b.host ++ portSuffix b.port := by
  obtain ⟨p, hp, hport, hunwritten, hhost⟩ := h
  have hsuffix : portSuffix a.port = [] := by rcases hunwritten with h | h <;> rw [h] <;> rfl
  rw [hsuffix, List.append_nil, hhost, hport, portSuffix, if_neg hp]

/-- Destinations with one origin are the same or confused, and only those. -/
theorem printed_eq_iff (ha : a.WellFormed std) (hb : b.WellFormed std) :
    a.printed std = b.printed std ↔ a = b ∨ Confused std a b := by
  constructor
  · intro h
    have hscheme := scheme_of_printed ha hb h
    rw [Destination.printed, Destination.printed, hscheme] at h
    rcases append_portSuffix (List.append_cancel_left h) with ⟨hhost, hport⟩ | hswallows | hswallows
    · exact eq_or_confused hscheme hhost hport
    · exact .inr (.literal hscheme (.inl hswallows))
    · exact .inr (.literal hscheme (.inr hswallows))
  · rintro (rfl | hconfused)
    · rfl
    · cases hconfused with
      | literal scheme swallows =>
          rw [Destination.printed, Destination.printed, scheme]
          rcases swallows with h | h
          · rw [h.alike]
          · rw [h.alike]
      | zeroPort scheme host port =>
          rw [Destination.printed, Destination.printed, scheme, host]
          rcases port with ⟨hnone, hzero⟩ | ⟨hzero, hnone⟩
          · rw [hnone, hzero]
            rfl
          · rw [hnone, hzero]
            rfl
      | zoneCase scheme port host _ =>
          rw [Destination.printed, Destination.printed, scheme, host, port]

/-- Nothing is printed as a blank value. -/
theorem printed_ne_nil (h : d.WellFormed std) : d.printed std ≠ [] := by
  intro hnil
  cases hscheme : d.scheme with
  | none =>
      rw [Destination.printed, hscheme, schemePrefix, List.nil_append] at hnil
      exact (h.bareHost hscheme).1 (List.append_eq_nil_iff.mp hnil).1
  | some scheme => simp [Destination.printed, hscheme, schemePrefix] at hnil

theorem origin_blank (h : strip (value.getD "") = "") : origin std value = .ok [] := by
  rw [origin, h]
  rfl

/-- The check lets a value through that is not blank exactly if it has the origin of the
environment's. -/
theorem checkPinned_eq_ok_iff {new env : Option String} {sink : Sink}
    (hne : strip (new.getD "") ≠ "") :
    checkPinned std new env true sink = .ok () ↔
      ∃ o, origin std new = .ok o ∧ origin std env = .ok o := by
  rw [checkPinned, if_neg (by simp), if_neg hne]
  cases hnew : origin std new with
  | error e => simp [Except.mapError, bind, Except.bind]
  | ok o =>
      cases henv : origin std env with
      | error e => simp [Except.mapError, bind, Except.bind]
      | ok o' =>
          by_cases hsame : o = o'
          · simp [Except.mapError, bind, Except.bind, hsame]
          · simp [Except.mapError, bind, Except.bind, hsame, Ne.symm hsame]

/-- What is let through names the destination of the environment, or one confused with it. -/
theorem destinations_of_checkPinned (hstd : std.Lawful) {new env : Option String} {sink : Sink}
    (hne : strip (new.getD "") ≠ "") (hcheck : checkPinned std new env true sink = .ok ()) :
    ∃ a b, destination std new = some a ∧ destination std env = some b ∧
      (a = b ∨ Confused std a b) := by
  obtain ⟨o, hnewOrigin, henvOrigin⟩ := (checkPinned_eq_ok_iff hne).mp hcheck
  obtain ⟨a, hnew⟩ := destination_of_origin hne hnewOrigin
  obtain ⟨-, hprinted, ha⟩ := origin_of_destination hstd hnew
  obtain rfl := Except.ok.inj (hprinted.symm.trans hnewOrigin)
  have henvNe : strip (env.getD "") ≠ "" := fun hblank => by
    rw [origin_blank hblank] at henvOrigin
    exact printed_ne_nil ha (Except.ok.inj henvOrigin).symm
  obtain ⟨b, henv⟩ := destination_of_origin henvNe henvOrigin
  obtain ⟨-, hprinted', hb⟩ := origin_of_destination hstd henv
  have hsame := Except.ok.inj (henvOrigin.symm.trans hprinted')
  exact ⟨a, b, hnew, henv, (printed_eq_iff ha hb).mp hsame⟩

/-- An edit of a sink that is let through clears it, or leaves its secret where it went or at a
destination confused with that. -/
theorem validateChanges_keeps (hstd : std.Lawful) {sink : Sink} {row env : String}
    {change : Option (Option String)}
    (h : validateChanges std sink row change env true = .ok ()) :
    strip ((change.getD (some row)).getD "") = "" ∨
      ∃ a b, destination std (change.getD (some row)) = some a ∧
        destination std (some env) = some b ∧ (a = b ∨ Confused std a b) := by
  by_cases hblank : strip ((change.getD (some row)).getD "") = ""
  · exact .inl hblank
  · exact .inr (destinations_of_checkPinned hstd hblank h)

/-- The audit trail is told of a move exactly when the destinations are neither the same nor
confused. -/
theorem hostChanged_eq_true_iff (hstd : std.Lawful) {old new : Option String}
    (hold : destination std old = some a) (hnew : destination std new = some b) :
    hostChanged std old new = .ok true ↔ a ≠ b ∧ ¬ Confused std a b := by
  obtain ⟨-, holdOrigin, ha⟩ := origin_of_destination hstd hold
  obtain ⟨-, hnewOrigin, hb⟩ := origin_of_destination hstd hnew
  have hchanged : hostChanged std old new = .ok (decide (a.printed std ≠ b.printed std)) := by
    rw [hostChanged, holdOrigin, hnewOrigin]
    rfl
  rw [hchanged, ← not_or, ← printed_eq_iff ha hb]
  simp

end Printing

/-! ## The main result -/

/-- Pinning holds for a new value and one of the environment exactly when they do not name
destinations that are confused. -/
theorem pinned_iff {std : Stdlib} (hstd : std.Lawful) (new env : Option String) (sink : Sink) :
    Pinned std new env sink ↔
      ¬ ∃ a b, destination std new = some a ∧ destination std env = some b ∧
        Confused std a b := by
  constructor
  · rintro hpinned ⟨a, b, hnew, henv, hconfused⟩
    obtain ⟨hne, hnewOrigin, ha⟩ := origin_of_destination hstd hnew
    obtain ⟨-, henvOrigin, hb⟩ := origin_of_destination hstd henv
    have hsame : a.printed std = b.printed std := (printed_eq_iff ha hb).mpr (.inr hconfused)
    have hcheck : checkPinned std new env true sink = .ok () :=
      (checkPinned_eq_ok_iff hne).mpr ⟨_, hnewOrigin, hsame ▸ henvOrigin⟩
    obtain ⟨d, hnew', henv'⟩ := hpinned hne hcheck
    exact hconfused.ne (Option.some.inj ((hnew.symm.trans hnew').trans (henv'.symm.trans henv)))
  · intro hnot hne hcheck
    obtain ⟨a, b, hnew, henv, rfl | hconfused⟩ := destinations_of_checkPinned hstd hne hcheck
    · exact ⟨a, hnew, henv⟩
    · exact absurd ⟨a, b, hnew, henv, hconfused⟩ hnot

/-- The case of a host and the path are free. -/
theorem pinned_path :
    Pinned Stdlib.ascii (some "https://siem.test:8088/v2") (some "https://SIEM.test:8088/in")
      siemHttpEndpoint := by
  refine (pinned_iff Stdlib.lawful_ascii _ _ _).mpr ?_
  rintro ⟨a, b, ha, hb, hconfused⟩
  have hnew : destination Stdlib.ascii (some "https://siem.test:8088/v2") =
      some ⟨some "https".toList, "siem.test".toList, some 8088⟩ := by decide +kernel
  have henv : destination Stdlib.ascii (some "https://SIEM.test:8088/in") =
      some ⟨some "https".toList, "siem.test".toList, some 8088⟩ := by decide +kernel
  exact hconfused.ne (Option.some.inj ((ha.symm.trans (hnew.trans henv.symm)).trans hb))

/-- What the environment has as a host alone, an edit may have as a host and a port. -/
theorem literal_redirected :
    checkPinned Stdlib.ascii (some "http://[fe80::1]:443") (some "http://[fe80::1:443]") true
        siemHttpEndpoint = .ok () ∧
      ¬ Pinned Stdlib.ascii (some "http://[fe80::1]:443") (some "http://[fe80::1:443]")
        siemHttpEndpoint := by
  have hcheck : checkPinned Stdlib.ascii (some "http://[fe80::1]:443")
      (some "http://[fe80::1:443]") true siemHttpEndpoint = .ok () := by decide +kernel
  have hnew : destination Stdlib.ascii (some "http://[fe80::1]:443") =
      some ⟨some "http".toList, "fe80::1".toList, some 443⟩ := by decide +kernel
  have henv : destination Stdlib.ascii (some "http://[fe80::1:443]") =
      some ⟨some "http".toList, "fe80::1:443".toList, none⟩ := by decide +kernel
  refine ⟨hcheck, fun hpinned => ?_⟩
  obtain ⟨d, hd, hd'⟩ := hpinned (by decide +kernel) hcheck
  have hsame := (hnew.symm.trans hd).trans (hd'.symm.trans henv)
  revert hsame
  decide

end IcebergTTX.SinkPinning

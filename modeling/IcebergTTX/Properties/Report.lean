import IcebergTTX.Services.ReportService
import IcebergTTX.System.Readings
import Mathlib.Algebra.GroupWithZero.Nat
import Mathlib.Data.List.Perm.Basic

/-!
# What an after-action report accounts for

A report is drawn up from many queries, and requests and tasks go on between them.  Whatever
they do, every response that had been committed when the report was asked for is in it once, in
the row of its inject, and its counts of members add up.

Main results:

- Theorem {lit}`participantTeamCounts_spec`, {lit}`teamCounts_sum`: who is counted where.
- Structure {lit}`Report.Accounts`: the rows that a report is made of.
- Theorem {lit}`report_complete`: the report of a running exercise.
-/

namespace IcebergTTX

open Transactions Request

/-! ## Counting members -/

/-- A member is enrolled as a participant of a team. -/
def PlaysIn (team : String) (member : ExerciseMember) : Bool :=
  member.roleAtEnrolment = .participant ∧ member.groupId = some team

/-- A member is enrolled as a participant of none of the teams. -/
def PlaysElsewhere (teams : List String) (member : ExerciseMember) : Bool :=
  member.roleAtEnrolment = .participant ∧ ∀ team ∈ teams, member.groupId ≠ some team

/-- The counts of a list of teams. -/
structure TeamCounts.Of (counts : TeamCounts) (teams : List String)
    (members : List ExerciseMember) : Prop where
  byTeam : ∀ team, counts.byTeam.get? team =
    if team ∈ teams then some (members.countP (PlaysIn team)) else none
  unassigned : counts.unassigned = members.countP (PlaysElsewhere teams)

/-- One more member is counted where the member plays. -/
theorem TeamCounts.Of.count {counts : TeamCounts} {teams : List String}
    {members : List ExerciseMember} (h : counts.Of teams members) (member : ExerciseMember) :
    (counts.count member).Of teams (members ++ [member]) := by
  have hsum : ∀ p : ExerciseMember → Bool, (members ++ [member]).countP p =
      members.countP p + if p member then 1 else 0 := by
    intro p
    rw [List.countP_append, List.countP_singleton]
  unfold TeamCounts.count
  split
  · rename_i hrole
    have hplays : ∀ team, PlaysIn team member = false := fun team => by simp [PlaysIn, hrole]
    have helsewhere : PlaysElsewhere teams member = false := by simp [PlaysElsewhere, hrole]
    exact ⟨fun team => by rw [h.byTeam, hsum, hplays]; rfl,
      by rw [h.unassigned, hsum, helsewhere]; rfl⟩
  rename_i hrole
  rw [not_not] at hrole
  -- A group that is none of the teams is counted like no group.
  have hother : (∀ team ∈ teams, member.groupId ≠ some team) →
      TeamCounts.Of { counts with unassigned := counts.unassigned + 1 } teams
        (members ++ [member]) := by
    intro hnone
    have helsewhere : PlaysElsewhere teams member = true := by
      simpa [PlaysElsewhere, hrole] using hnone
    refine ⟨fun team => ?_, by rw [hsum, helsewhere, h.unassigned]; rfl⟩
    show counts.byTeam.get? team = _
    rw [h.byTeam, hsum]
    split
    · rename_i hteam
      have hplays : PlaysIn team member = false := by simp [PlaysIn, hnone team hteam]
      rw [hplays]
      rfl
    · rfl
  cases hgroup : member.groupId with
  | none => exact hother (by simp [hgroup])
  | some group =>
      by_cases hteam : group ∈ teams
      · have hget := h.byTeam group
        rw [if_pos hteam] at hget
        simp only [hget]
        have helsewhere : PlaysElsewhere teams member = false := by
          simp only [PlaysElsewhere, hgroup, decide_eq_false_iff_not, not_and]
          exact fun _ hnone => hnone group hteam rfl
        refine ⟨fun team => ?_, by rw [hsum, helsewhere, h.unassigned]; rfl⟩
        rw [Dict.get?_set, hsum]
        by_cases heq : group = team
        · subst heq
          have hplays : PlaysIn group member = true := by simp [PlaysIn, hrole, hgroup]
          rw [if_pos rfl, if_pos hteam, hplays]
          rfl
        · have hplays : PlaysIn team member = false := by simp [PlaysIn, hgroup, heq]
          rw [if_neg heq, hplays, h.byTeam]
          rfl
      · have hget := h.byTeam group
        rw [if_neg hteam] at hget
        simp only [hget]
        refine hother fun team hmem heq => hteam ?_
        rw [hgroup, Option.some.injEq] at heq
        exact heq ▸ hmem

/-- Every member is counted once: in the team of the enrolment, or among those in none. -/
theorem participantTeamCounts_spec (teams : List ParticipantTeam)
    (members : List ExerciseMember) :
    (participantTeamCounts teams members).Of (teams.map (·.id)) members := by
  induction members using List.reverseRecOn with
  | nil =>
      refine ⟨fun team => ?_, rfl⟩
      show (Dict.ofRows ParticipantTeam.id (fun _ => 0) teams).get? team = _
      rw [Dict.ofRows, Dict.get?_setAll]
      by_cases hteam : team ∈ teams.map (·.id)
      · obtain ⟨row, hrow, rfl⟩ := List.mem_map.mp hteam
        have hsome : (Table.get ParticipantTeam.id teams.reverse row.id).isSome :=
          Table.get_isSome_iff.mpr ⟨row, List.mem_reverse.mpr hrow, rfl⟩
        obtain ⟨found, hfound⟩ := Option.isSome_iff_exists.mp hsome
        rw [hfound, if_pos hteam]
        rfl
      · have hnone : Table.get ParticipantTeam.id teams.reverse team = none :=
          Table.get_eq_none_iff.mpr fun row hrow heq =>
            hteam (List.mem_map.mpr ⟨row, List.mem_reverse.mp hrow, heq⟩)
        rw [hnone, if_neg hteam]
        rfl
  | append_singleton members member ih =>
      rw [participantTeamCounts, List.foldl_concat]
      exact ih.count member

/-- A participant who plays in none of some teams plays in one more team, or in none of those
either. -/
theorem countP_playsElsewhere {team : String} {teams : List String} (hteam : team ∉ teams)
    (members : List ExerciseMember) :
    members.countP (PlaysElsewhere teams) =
      members.countP (PlaysIn team) + members.countP (PlaysElsewhere (team :: teams)) := by
  induction members with
  | nil => rfl
  | cons member members ih =>
      have hone : (if PlaysElsewhere teams member then 1 else 0) =
          (if PlaysIn team member then 1 else 0) +
            if PlaysElsewhere (team :: teams) member then 1 else 0 := by
        by_cases hplays : PlaysIn team member
        · have hgroup : member.roleAtEnrolment = .participant ∧ member.groupId = some team := by
            simpa [PlaysIn] using hplays
          have hbefore : PlaysElsewhere teams member = true := by
            simp only [PlaysElsewhere, hgroup, decide_eq_true_eq, true_and]
            intro other hother heq
            exact hteam (Option.some.inj heq ▸ hother)
          have hafter : PlaysElsewhere (team :: teams) member = false := by
            simp [PlaysElsewhere, hgroup]
          simp [hplays, hbefore, hafter]
        · have hsame : PlaysElsewhere (team :: teams) member = PlaysElsewhere teams member := by
            by_cases hrole : member.roleAtEnrolment = .participant
            · have hgroup : member.groupId ≠ some team := by simpa [PlaysIn, hrole] using hplays
              simp [PlaysElsewhere, hrole, hgroup]
            · simp [PlaysElsewhere, hrole]
          simp [hplays, hsame]
      simp only [List.countP_cons]
      omega

/-- The participants of the teams and those in none are the participants, if no two teams have
one id. -/
theorem teamCounts_sum {teams : List String} (hteams : teams.Nodup)
    (members : List ExerciseMember) :
    (teams.map fun team => members.countP (PlaysIn team)).sum +
        members.countP (PlaysElsewhere teams) = roleCount members .participant := by
  induction teams with
  | nil =>
      have hall : PlaysElsewhere [] =
          fun member => decide (member.roleAtEnrolment = .participant) := by
        funext member
        simp [PlaysElsewhere]
      simp [roleCount, hall]
  | cons team teams ih =>
      obtain ⟨hteam, hrest⟩ := List.nodup_cons.mp hteams
      have hsum := ih hrest
      have hsplit := countP_playsElsewhere hteam members
      rw [List.map_cons, List.sum_cons]
      omega

/-- Everybody is enrolled in one of the three roles. -/
theorem roleCounts_sum (members : List ExerciseMember) :
    roleCount members .participant + roleCount members .facilitator +
      roleCount members .observer = members.length := by
  induction members with
  | nil => rfl
  | cons member members ih =>
      simp only [roleCount, List.countP_cons, List.length_cons] at ih ⊢
      cases member.roleAtEnrolment <;> simp <;> omega

/-! ## The rows of the report -/

/-- Rows taken key by key are the rows that have one of the keys, if no key is taken twice. -/
theorem flatMap_filter_perm {β : Type} (key : β → Nat) {keys : List Nat} (hkeys : keys.Nodup)
    (rows : List β) :
    (keys.flatMap fun k => rows.filter (key · = k)).Perm
      (rows.filter fun row => key row ∈ keys) := by
  induction keys with
  | nil => simp
  | cons k keys ih =>
      obtain ⟨hk, hrest⟩ := List.nodup_cons.mp hkeys
      rw [List.flatMap_cons]
      refine ((ih hrest).append_left _).trans ?_
      have hparts := List.filter_append_perm (fun row => decide (key row = k))
        (rows.filter fun row => decide (key row ∈ k :: keys))
      rw [List.filter_filter, List.filter_filter] at hparts
      refine List.Perm.trans (.of_eq ?_) hparts
      congr 1
      · refine List.filter_congr fun row _ => ?_
        by_cases hrow : key row = k <;> simp [hrow]
      · refine List.filter_congr fun row _ => ?_
        by_cases hrow : key row = k
        · simp [hrow, hk]
        · simp [hrow]

/-- The rows that a report is made of: the injects it lists, each with the responses that were
read for it, as they are printed. -/
structure Report.Accounts (report : Report) (injects : List Inject)
    (responses : List Response) : Prop where
  injectIds : (injects.map Inject.id).Nodup
  released : ∀ inject ∈ injects, inject.state ≠ .pending
  rows : ∃ printed : Response → ReportResponse,
    (∀ response, (printed response).content = response.content ∧
      (printed response).selectedOption = response.selectedOption ∧
      (printed response).groupId = response.groupId ∧
      (printed response).submittedAt = isoformat response.submittedAt) ∧
    List.Forall₂ (fun inject row => row.title = inject.title ∧ row.content = inject.content ∧
        row.responses.Perm ((responses.filter (·.injectId = inject.id)).map printed))
      injects report.injects ∧
    (report.injects.flatMap (·.responses)).Perm
      ((responses.filter (·.injectId ∈ injects.map Inject.id)).map printed)

theorem mem_releasedInjects {injects : List Inject} {inject : Inject} {time : Micros} :
    (inject, time) ∈ releasedInjects injects ↔
      inject ∈ injects ∧ inject.releasedAt = some time := by
  rw [releasedInjects, List.mem_insertionSort, List.mem_filterMap]
  constructor
  · rintro ⟨other, hother, hsome⟩
    obtain ⟨t, ht, heq⟩ := Option.map_eq_some_iff.mp hsome
    obtain ⟨rfl, rfl⟩ := Prod.mk.inj heq
    exact ⟨hother, ht⟩
  · rintro ⟨hmem, htime⟩
    exact ⟨inject, hmem, by rw [htime]; rfl⟩

/-- No inject is listed twice. -/
theorem releasedInjects_nodup {injects : List Inject}
    (hids : (injects.map Inject.id).Nodup) :
    ((releasedInjects injects).map fun entry => entry.1.id).Nodup := by
  have hperm := (List.perm_insertionSort (fun a b : Inject × Micros => a.2 ≤ b.2)
    (injects.filterMap fun inject => inject.releasedAt.map (inject, ·))).map fun entry =>
      entry.1.id
  refine hperm.nodup_iff.mpr ?_
  have hsub : ((injects.filterMap fun inject => inject.releasedAt.map (inject, ·)).map
      fun entry => entry.1.id).Sublist (injects.map Inject.id) := by
    induction injects with
    | nil => exact .refl _
    | cons inject rest ih =>
        have hrest := ih (List.nodup_cons.mp hids).2 (List.perm_insertionSort _ _ |>.map _)
        cases htime : inject.releasedAt with
        | none => simpa [htime] using hrest.cons inject.id
        | some time => simpa [htime] using hrest
  exact hids.sublist hsub

/-- The report of any rows. -/
theorem accounts_buildReport (displayName : Nat → Option String) (rows : ExerciseRows)
    (hids : (rows.injects.map Inject.id).Nodup)
    (hreleased : ∀ inject ∈ rows.injects, inject.releasedAt.isSome ↔ inject.state ≠ .pending) :
    (buildReport displayName rows).Accounts ((releasedInjects rows.injects).map Prod.fst)
      rows.responses := by
  have hids' : (((releasedInjects rows.injects).map Prod.fst).map Inject.id).Nodup := by
    rw [List.map_map]
    exact releasedInjects_nodup hids
  let printed := reportResponse (reportName displayName rows.users)
    (Dict.ofRows (·.responseId) id rows.assessments)
  have hrow : ∀ inject time, (reportInject (reportName displayName rows.users) rows inject
      time).responses.Perm ((rows.responses.filter (·.injectId = inject.id)).map printed) :=
    fun inject time => (List.perm_insertionSort _ _).map printed
  refine ⟨hids', fun inject hinject => ?_, printed, fun response => ⟨rfl, rfl, rfl, rfl⟩, ?_, ?_⟩
  · obtain ⟨⟨inject, time⟩, hentry, rfl⟩ := List.mem_map.mp hinject
    obtain ⟨hmem, htime⟩ := mem_releasedInjects.mp hentry
    exact (hreleased inject hmem).mp (by rw [htime]; rfl)
  · show List.Forall₂ _ _ ((releasedInjects rows.injects).map _)
    rw [List.forall₂_map_left_iff, List.forall₂_map_right_iff, List.forall₂_same]
    exact fun entry _ => ⟨rfl, rfl, hrow entry.1 entry.2⟩
  · show (((releasedInjects rows.injects).map _).flatMap _).Perm _
    rw [List.flatMap_map]
    have hparts : ((releasedInjects rows.injects).flatMap fun entry =>
        (reportInject (reportName displayName rows.users) rows entry.1 entry.2).responses).Perm
        ((releasedInjects rows.injects).flatMap fun entry =>
          (rows.responses.filter (·.injectId = entry.1.id)).map printed) :=
      List.Perm.flatMap_left _ fun entry _ => hrow entry.1 entry.2
    refine hparts.trans ?_
    have hkeys := (flatMap_filter_perm Response.injectId hids' rows.responses).map printed
    rw [List.map_flatMap, List.flatMap_map, List.flatMap_map] at hkeys
    exact hkeys

/-! ## The report of a running exercise -/

variable {sha256 : String → String} {s₀ : Db} {w w' : Exercises} {outside : Surroundings}

/-- The tables that a report is read from, as its queries find them. -/
structure LoadedAmong (sha256 : String → String) (outside : Surroundings) (rows : ExerciseRows)
    (w w' : Exercises) : Prop where
  definition : rows.definition = w.db.scenario.definition
  injects : ∃ v, Reachable (Op.code sha256) w v ∧ rows.injects = outside.scan v.db.injects
  responses : ∃ v, Reachable (Op.code sha256) w v ∧ Reachable (Op.code sha256) v w' ∧
    rows.responses = outside.scan v.db.responses

/-- What the queries of a bundle have found. -/
theorem loadedAmong (h₀ : Drafted s₀) (hrun : Reachable (Op.code sha256) (World.idle s₀) w)
    {rows : ExerciseRows}
    (h : ObservesAmong sha256 (loadExerciseBundle outside) w (.ok rows) w') :
    LoadedAmong sha256 outside rows w w' := by
  obtain ⟨v₁, hexercise, h⟩ := observesAmong_select h
  obtain ⟨v₂, hdefinition, h⟩ := observesAmong_select h
  obtain ⟨v₃, hmembers, h⟩ := observesAmong_select h
  obtain ⟨v₄, hinjects, h⟩ := observesAmong_select h
  obtain ⟨v₅, hresolutions, h⟩ := observesAmong_select h
  obtain ⟨v₆, hresponses, h⟩ := observesAmong_select h
  have hlater : Reachable (Op.code sha256) v₆ w' := h.runs
  obtain ⟨v₇, -, h⟩ := observesAmong_select h
  obtain ⟨v₈, -, h⟩ := observesAmong_select h
  obtain ⟨v₉, -, h⟩ := observesAmong_select h
  obtain ⟨v₁₀, -, h⟩ := observesAmong_select h
  obtain ⟨rfl, -⟩ := observesAmong_pure h
  have hstart := hexercise.trans hdefinition
  have hread := (hstart.trans hmembers).trans hinjects
  exact
    { definition := by
        show v₂.db.scenario.definition = w.db.scenario.definition
        rw [(evolves_of_run h₀ hrun hstart).scenario]
      injects := ⟨v₄, hread, rfl⟩
      responses := ⟨v₆, (hread.trans hresolutions).trans hresponses, hlater, rfl⟩ }

theorem quiet_loadExerciseBundle (outside : Surroundings) :
    Prog.Quiet (loadExerciseBundle outside) :=
  fun _ _ _ _ _ _ _ _ _ _ => trivial

theorem quiet_reportJson (outside : Surroundings) (user : CurrentUser) :
    Prog.Quiet (reportJson outside user) := by
  refine quiet_bind ?_ fun _ => quiet_bind ?_ fun _ =>
    quiet_bind (quiet_loadExerciseBundle outside) fun _ => trivial
  · unfold requireRole
    split <;> trivial
  · refine quiet_bind (fun _ => trivial) fun exercise => ?_
    split
    · trivial
    split
    · trivial
    split
    · refine quiet_bind (fun _ => trivial) fun found => ?_
      split <;> trivial
    · trivial

/-- No assessments and no names but the emails, and rows in the order of their insertion. -/
def sampleSurroundings : Surroundings where
  assessments _ := []
  summary := none
  displayName _ := none
  scan rows := rows

end IcebergTTX

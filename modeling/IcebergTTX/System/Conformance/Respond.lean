import IcebergTTX.System.Conformance.Release

/-!
# Responses keep the protocol

A response decides under the lock of its inject.  What it decides from are the
resolution rows of that inject, which the lock keeps, and the roster, which the
release froze, so its decisions still stand when it commits.

Main results:

- Theorem {lit}`SameRows.allResolved`: what a response decides depends on the
  resolution rows of its inject alone.
- Theorem {lit}`meets_resolveResponseProgression`: the progression of a response is
  one step at its commit.
- Theorem {lit}`meets_submitResponse`: the whole transaction.
-/

namespace IcebergTTX

open Transactions Request

/-! ## Decisions on resolution rows -/

/-- Two tables have the same resolution rows for an inject. -/
def SameRows (injectId : Nat) (rows rows' : List InjectProgress) : Prop :=
  rows.filter (·.injectId = injectId) = rows'.filter (·.injectId = injectId)

variable {injectId : Nat} {rows rows' : List InjectProgress}

/-- A path of the inject is found among its own. -/
theorem get_filter_injectId (context : Context) (rows : List InjectProgress) :
    Table.get InjectProgress.key (rows.filter (·.injectId = injectId)) (injectId, context) =
      Table.get InjectProgress.key rows (injectId, context) := by
  induction rows with
  | nil => rfl
  | cons row rest ih =>
      by_cases hid : row.injectId = injectId
      · simp only [List.filter_cons, hid, decide_true, if_true, Table.get_cons, ih]
      · have hkey : row.key ≠ (injectId, context) := fun h => hid (congrArg Prod.fst h)
        simp [hid, Table.get_cons, hkey, ih]

/-- The same path is found. -/
theorem SameRows.get (h : SameRows injectId rows rows') (context : Context) :
    Table.get InjectProgress.key rows (injectId, context) =
      Table.get InjectProgress.key rows' (injectId, context) := by
  rw [← get_filter_injectId context rows, ← get_filter_injectId context rows', h]

/-- The same path is inserted. -/
theorem SameRows.insertNew (h : SameRows injectId rows rows') (context : Context) :
    SameRows injectId
      (Table.insertNew InjectProgress.key { injectId, groupId := context } rows)
      (Table.insertNew InjectProgress.key { injectId, groupId := context } rows') := by
  have hget := h.get context
  have hkey : InjectProgress.key { injectId, groupId := context } = (injectId, context) := rfl
  unfold Table.insertNew
  rw [hkey, hget]
  split
  · exact h
  · simp only [SameRows, List.filter_append] at h ⊢
    rw [h]

/-- The same paths are seeded. -/
theorem SameRows.seedRows (h : SameRows injectId rows rows') (contexts : List Context) :
    SameRows injectId (seedRows injectId contexts rows) (seedRows injectId contexts rows') := by
  induction contexts generalizing rows rows' with
  | nil => exact h
  | cons context rest ih => exact ih (h.insertNew context)

/-- The paths of the inject are updated as the table is. -/
theorem filter_update (context : Context) {f : InjectProgress → InjectProgress}
    (hf : ∀ row, (f row).injectId = row.injectId) (rows : List InjectProgress) :
    (Table.update InjectProgress.key (injectId, context) f rows).filter
        (·.injectId = injectId) =
      Table.update InjectProgress.key (injectId, context) f
        (rows.filter (·.injectId = injectId)) := by
  induction rows with
  | nil => rfl
  | cons row rest ih =>
      have ih' : List.filter (·.injectId = injectId) (List.map (fun row =>
          if row.key = (injectId, context) then f row else row) rest) = _ := ih
      have hfirst : (if row.key = (injectId, context) then f row else row).injectId =
          row.injectId := by
        split
        · exact hf row
        · rfl
      by_cases hid : row.injectId = injectId <;> simp [Table.update, hfirst, hid, ih']

/-- The same path is updated. -/
theorem SameRows.update (h : SameRows injectId rows rows') (context : Context)
    {f : InjectProgress → InjectProgress} (hf : ∀ row, (f row).injectId = row.injectId) :
    SameRows injectId (Table.update InjectProgress.key (injectId, context) f rows)
      (Table.update InjectProgress.key (injectId, context) f rows') := by
  simp only [SameRows, filter_update context hf]
  rw [h]

/-- The closing test of the source is the one of the atomic step. -/
theorem allResolved_iff :
    allResolved rows injectId ↔ rows.filter (·.injectId = injectId) ≠ [] ∧
      (rows.filter (·.injectId = injectId)).all (·.state = .resolved) := by
  simp only [allResolved, Bool.decide_and, Bool.and_eq_true, decide_eq_true_eq,
    List.any_eq_true, List.all_eq_true, List.mem_filter, ne_eq, List.filter_eq_nil_iff,
    not_forall, not_not]
  constructor
  · rintro ⟨⟨row, hrow, hid⟩, hall⟩
    exact ⟨⟨row, hrow, hid⟩, fun row h => hall row h.1 h.2⟩
  · rintro ⟨⟨row, hrow, hid⟩, hall⟩
    exact ⟨⟨row, hrow, hid⟩, fun row h hid => hall row ⟨h, hid⟩⟩

/-- All paths of the inject are resolved in both or in neither. -/
theorem SameRows.allResolved (h : SameRows injectId rows rows') :
    allResolved rows injectId = allResolved rows' injectId := by
  rw [Bool.eq_iff_iff, allResolved_iff, allResolved_iff, h]

/-! ## The atomic step -/

variable {inject : Inject} {context : Context} {actorId : Nat} {next : Option String}
  {now : Micros}

/-- A closed path is not resolved again. -/
theorem Db.resolvePath_of_closed {u : Db} (h : u.isOpen inject.id context = false) :
    u.resolvePath inject context actorId next now = u := by
  simp [Db.resolvePath, h]

/-- The writes of an open path: resolve it, close the inject with the last path,
and write the cursor. -/
theorem Db.resolvePath_of_open {u : Db} (next : Option String)
    (hopen : u.isOpen inject.id context = true)
    {complete : Bool}
    (hcomplete : IcebergTTX.allResolved (u.resolvedRows inject.id context actorId now)
      inject.id = complete) :
    u.resolvePath inject context actorId next now =
      { u with
        injectProgress := u.resolvedRows inject.id context actorId now
        injects :=
          if complete then Table.update Inject.id inject.id (·.resolve now actorId) u.injects
          else u.injects
        exerciseProgress :=
          if inject.scenarioNodeId = none then u.exerciseProgress
          else writeCursor inject.id context actorId next now u.exerciseProgress } := by
  simp only [Db.resolvePath, hopen, hcomplete, true_and, if_true]
  by_cases hnode : inject.scenarioNodeId = none <;> simp [hnode]

/-- Writes that leave alone the tables that a progression reads. -/
structure Neutral (W : Db → Db) : Prop where
  members : ∀ s, (W s).members = s.members
  injects : ∀ s, (W s).injects = s.injects
  injectProgress : ∀ s, (W s).injectProgress = s.injectProgress
  exerciseProgress : ∀ s, (W s).exerciseProgress = s.exerciseProgress
  clock : ∀ s, (W s).clock = s.clock

/-- A released inject object that a session has loaded at some point. -/
def LoadedReleased (inject : Inject) (t : Db) : Prop :=
  ∃ s, Consistent s ∧ s.inject? inject.id = some inject ∧ inject.state ≠ .pending ∧
    Evolves [] s t

/-- A released inject is still there, with its statics. -/
theorem LoadedReleased.current {t : Db} (h : LoadedReleased inject t) (ht : Consistent t) :
    ∃ current, t.inject? inject.id = some current ∧ current.state ≠ .pending ∧
      SameStatics inject current := by
  obtain ⟨s, hc, hinject, hstate, hevolves⟩ := h
  have hreleased : t.isReleased inject.id :=
    hevolves.released _ (Db.isReleased_iff.mpr ⟨inject, hinject, hstate⟩)
  obtain ⟨current, hcurrent, hcstate⟩ := Db.isReleased_iff.mp hreleased
  exact ⟨current, hcurrent, hcstate, Loaded.statics ⟨s, hc, hinject, hevolves⟩ ht hcurrent⟩

variable {L : List Row} {W : Db → Db} {b : Option Db} {A : Db → Prop}

/-- What a session that owns an inject reads of its resolution rows stands. -/
theorem Evolves.sameRows {s t : Db} (h : Evolves L s t) (hL : .inject injectId ∈ L)
    (hs : (s.inject? injectId).isSome) : SameRows injectId t.injectProgress s.injectProgress := by
  obtain ⟨inject, hinject⟩ := Option.isSome_iff_exists.mp hs
  exact (h.locked _ _ hL hinject).2

/-- A reading of the clock by a session that owns some rows, as a later state sees it. -/
def ResolutionClock (L : List Row) (A : Db → Prop) (now : Micros) (t : Db) : Prop :=
  ∃ s, A s ∧ Consistent s ∧ s.clock = now ∧ Evolves L s t

/-- Under the lock of an inject the paths that are resolved when the clock is read are all
that are resolved. -/
theorem ResolutionClock.resolvesNow {t : Db} (h : ResolutionClock L A now t)
    (hA : ∀ t, A t → LoadedReleased inject t) (hL : .inject inject.id ∈ L) :
    ResolvesNow inject.id now t := by
  obtain ⟨s, hs, hc, rfl, hevolves⟩ := h
  obtain ⟨current, hcurrent, -⟩ := (hA s hs).current hc
  refine ⟨hevolves.clock, fun row hrow => ?_⟩
  rw [(hevolves.locked _ _ hL hcurrent).2] at hrow
  exact hc.resolvedTimes row (List.mem_of_mem_filter hrow)

/-- The cursor is advanced once its row is locked. -/
theorem meets_advanceCursor {Q : Post Unit} {injectId : Nat}
    (hW : ∀ s, (W s).exerciseProgress = s.exerciseProgress)
    (h : ∀ W' b' A', Kept b b' → (∀ t, A' t → A t) →
      (∀ t, A' t → W' t = { W t with
        exerciseProgress :=
          writeCursor injectId context actorId next now (W t).exerciseProgress }) →
      Q () (.exerciseProgress context :: L) W' b' A') :
    Meets Q (advanceCursor injectId context actorId next now) L W b A := by
  refine meets_bind.mpr (meets_forUpdate (meets_bind.mpr (meets_select fun s _ _ => ?_)))
  have hcursor : ∀ t, Since protocol (.exerciseProgress context :: L) s A t →
      (Table.get ExerciseProgress.groupId t.exerciseProgress context).isSome =
        ((W s).cursor? context).isSome := by
    intro t ht
    rw [Db.cursor?, hW s]
    exact (Since.evolves ht).cursor context List.mem_cons_self
  split
  · rename_i cursor hfound
    refine meets_execute (h _ _ _ (.read b s) (fun t ht => ht.1) fun t ht => ?_)
    have hsome := hcursor t ht
    simp only [hfound, Option.isSome_some] at hsome
    simp [writeCursor, hsome, Db.updateCursor, hW t]
  · rename_i hfound
    refine meets_execute (h _ _ _ (.read b s) (fun t ht => ht.1) fun t ht => ?_)
    have hnone := hcursor t ht
    simp only [hfound, Option.isSome_none] at hnone
    simp [writeCursor, hnone, Db.insertCursor, hW t]

/-- What a response leaves for its commit: the atomic step on what it had written
before, under the lock of the cursor that it advances. -/
structure Resolved (inject : Inject) (context : Context) (actorId : Nat)
    (next : Option String) (now : Micros) (advances : Bool) (before after : Db) : Prop where
  writes : after = before.resolvePath inject context actorId next now
  advances_of_open : inject.scenarioNodeId ≠ none →
    before.isOpen inject.id context → advances

/-- The closing part writes what the atomic step writes. -/
theorem meets_closeWhenComplete {Q : Post Unit} {injectId : Nat}
    {R : List InjectProgress}
    (hrows : ∀ t, A t → SameRows injectId (W t).injectProgress R)
    (h : ∀ b' A', Kept b b' → (∀ t, A' t → A t) →
      Q () L (fun t => { W t with
        injects :=
          if IcebergTTX.allResolved R injectId then
            Table.update Inject.id injectId (·.resolve now actorId) (W t).injects
          else (W t).injects }) b' A') :
    Meets Q (closeWhenComplete injectId actorId now) L W b A := by
  refine meets_bind.mpr (meets_select fun s hs _ => ?_)
  have htest : IcebergTTX.allResolved R injectId = true ↔
      (W s).progressOf injectId ≠ [] ∧
        ((W s).progressOf injectId).all (·.state = .resolved) := by
    rw [← (hrows s hs).allResolved, allResolved_iff]
    rfl
  split
  · rename_i hcomplete
    have hnext := h (b <|> some s) (Since protocol L s A) (.read b s) fun t ht => ht.1
    simp only [htest.mpr hcomplete, if_true] at hnext
    exact meets_execute hnext
  · rename_i hcomplete
    have hnext := h (b <|> some s) (Since protocol L s A) (.read b s) fun t ht => ht.1
    simp only [mt htest.mp hcomplete] at hnext
    exact meets_pure hnext

/-- A path is resolved, and the inject closed, once their rows are locked. -/
theorem meets_resolveOpenPath {Q : Post Bool} {R : List InjectProgress}
    (hrows : ∀ t, A t → SameRows inject.id (W t).injectProgress R)
    (hW : ∀ s, (W s).exerciseProgress = s.exerciseProgress)
    (hclock : ∀ s, (W s).clock = s.clock)
    (h : ∀ value L' W' b' A' now advances, Kept b b' → (∀ row ∈ L, row ∈ L') →
      (advances = true → .exerciseProgress context ∈ L') → (∀ t, A' t → A t) →
      (∀ t, A' t → Resolved inject context actorId next now advances (W t) (W' t)) →
      (∀ t, A' t → (W t).isOpen inject.id context → ResolutionClock L A now t) →
      Q value L' W' b' A') :
    Meets Q (resolveOpenPath inject context actorId next) L W b A := by
  refine meets_bind.mpr (meets_forUpdate (meets_bind.mpr (meets_select fun s hs _ => ?_)))
  have hsub : ∀ row ∈ L, row ∈ Row.injectProgress inject.id context :: L :=
    fun row hrow => List.mem_cons_of_mem _ hrow
  -- What was read of the path stands in every state that can follow.
  have hopen : ∀ t, A t → (W t).isOpen inject.id context =
      ((W s).progress? inject.id context).any (·.state ≠ .resolved) := by
    intro t ht
    rw [Db.isOpen, Db.progress?, Db.progress?, (hrows t ht).get, (hrows s hs).get]
  have hclosed : ∀ value,
      ((W s).progress? inject.id context).any (·.state ≠ .resolved) = false →
      Q value (.injectProgress inject.id context :: L) W (b <|> some s)
        (Since protocol (.injectProgress inject.id context :: L) s A) := by
    intro value hnot
    have hisOpen : ∀ t, Since protocol (.injectProgress inject.id context :: L) s A t →
        (W t).isOpen inject.id context = false := fun t ht => (hopen t ht.1).trans hnot
    refine h value _ _ _ _ 0 false (.read b s) hsub (by simp) (fun t ht => ht.1)
      (fun t ht => ?_) fun t ht hyes => ?_
    · exact ⟨(Db.resolvePath_of_closed (hisOpen t ht)).symm,
        fun _ hyes => by simp [hisOpen t ht] at hyes⟩
    · simp [hisOpen t ht] at hyes
  split
  · rename_i hnone
    exact meets_pure (hclosed _ (by simp [hnone]))
  rename_i progress hprogress
  split
  · rename_i hresolved
    exact meets_pure (hclosed _ (by simp [hprogress, hresolved]))
  rename_i hstate
  have hisOpen : ∀ t, A t → (W t).isOpen inject.id context = true := by
    intro t ht
    rw [hopen t ht]
    simp [hprogress, hstate]
  refine meets_bind.mpr (meets_now fun s' hs' hc' => meets_bind.mpr (meets_execute ?_))
  have hread : ∀ t, Since protocol (.injectProgress inject.id context :: L) s'
      (Since protocol (.injectProgress inject.id context :: L) s A) t →
        ResolutionClock L A (W s').clock t := fun t ht =>
    ⟨s', hs'.1, hc', (hclock s').symm, (Since.evolves ht).mono hsub⟩
  generalize (W s').clock = now at hread ⊢
  have hrows' : ∀ t, A t → SameRows inject.id
      (Table.update InjectProgress.key (inject.id, context) (·.resolve now actorId)
        (W t).injectProgress)
      (Table.update InjectProgress.key (inject.id, context) (·.resolve now actorId) R) :=
    fun t ht => (hrows t ht).update context fun _ => rfl
  refine meets_bind.mpr (meets_closeWhenComplete (fun t ht => hrows' t ht.1.1) ?_)
  intro b' A' hkept hA'
  have hbase : Kept b b' := Kept.trans (.trans (.read b s) (.read _ s')) hkept
  have hstep : ∀ t, A' t → _ := fun t ht =>
    Db.resolvePath_of_open next (hisOpen t (hA' t ht).1.1)
      ((hrows' t (hA' t ht).1.1).allResolved)
  split
  · rename_i hnode
    refine meets_pure (h true _ _ _ _ now false hbase hsub (by simp)
      (fun t ht => (hA' t ht).1.1) (fun t ht => ⟨?_, fun hne => absurd hnode hne⟩)
      fun t ht _ => hread t (hA' t ht))
    rw [hstep t ht]
    simp only [hnode, if_true]
    rfl
  · rename_i hnode
    refine meets_bind.mpr (meets_advanceCursor hW fun W' b'' A'' hkept' hA'' hW' => ?_)
    refine meets_pure (h true _ _ _ _ now true (hbase.trans hkept')
      (fun row hrow => List.mem_cons_of_mem _ (hsub row hrow)) (by simp)
      (fun t ht => (hA' t (hA'' t ht)).1.1) (fun t ht => ⟨?_, fun _ _ => rfl⟩)
      fun t ht _ => hread t (hA' t (hA'' t ht)))
    rw [hW' t ht, hstep t (hA'' t ht)]
    simp only [hnode, if_false]
    rfl

/-! ## The transaction -/

/-- The progression of a response is one step at its commit: the resolution rows
are kept by the lock of the inject, the audience by the release. -/
theorem meets_resolveResponseProgression {Q : Post Bool} {groupId : Context}
    (hW : Neutral W) (hA : ∀ t, A t → LoadedReleased inject t)
    (h : ∀ value L' W' b' A' now advances, Kept b b' → (∀ row ∈ L, row ∈ L') →
      .inject inject.id ∈ L' →
      (advances = true → .exerciseProgress (responseContext groupId inject) ∈ L') →
      (∀ t, A' t → A t) →
      (∀ t, A' t → Consistent t →
        Resolved inject (responseContext groupId inject) actorId next now advances
          ((W t).seedProgress inject.id (injectAudienceContexts inject t.members)) (W' t) ∧
        (((W t).seedProgress inject.id (injectAudienceContexts inject t.members)).isOpen
          inject.id (responseContext groupId inject) → ResolvesNow inject.id now t)) →
      Q value L' W' b' A') :
    Meets Q (resolveResponseProgression inject groupId actorId next) L W b A := by
  refine meets_bind.mpr (meets_forUpdate ?_)
  refine meets_bind.mpr (meets_selectOr (Failure.plain_of rfl) ?_)
  intro s₁ _ hs₁ hc₁ _
  refine meets_bind.mpr (meets_seedInjectResolutionContexts hW.members ?_)
  intro s₂ contexts L₂ b₂ A₂ hkept₂ hs₂ hc₂ hcontexts hL₂ hA₂
  have hthere : (s₁.inject? inject.id).isSome := by
    obtain ⟨current, hcurrent, -⟩ := (hA s₁ hs₁).current hc₁
    simp [hcurrent]
  have hrows : ∀ t, A₂ t → SameRows inject.id
      ((Db.seedProgress inject.id contexts ∘ W) t).injectProgress
      (seedRows inject.id contexts s₁.injectProgress) := by
    intro t ht
    have hsame := (Since.evolves (hA₂ t ht).1).sameRows List.mem_cons_self hthere
    simp only [Function.comp_apply, Db.seedProgress, hW.injectProgress]
    exact hsame.seedRows contexts
  refine meets_resolveOpenPath hrows hW.exerciseProgress hW.clock ?_
  intro value L' W' b' A' now advances hkept hL' hcursor hA' hresolved hread
  have howned : ∀ row ∈ .inject inject.id :: L, row ∈ L' :=
    fun row hrow => hL' row (hL₂ row hrow)
  refine h value L' W' b' A' now advances (Kept.trans (.trans (.read b s₁) hkept₂) hkept)
    (fun row hrow => howned row (List.mem_cons_of_mem _ hrow))
    (howned _ List.mem_cons_self) hcursor (fun t ht => (hA₂ t (hA' t ht)).1.1) ?_
  intro t ht _
  have hmembers : t.members = s₂.members := by
    obtain ⟨current, hcurrent, hstate, -⟩ := (hA s₂ hs₂.1).current hc₂
    exact (hA₂ t (hA' t ht)).2.roster _ (Db.isReleased_iff.mpr ⟨current, hcurrent, hstate⟩)
  rw [hmembers, ← hcontexts]
  refine ⟨hresolved t ht, fun hopen => (hread t ht hopen).resolvesNow ?_ ?_⟩
  · exact fun t ht => hA t (hA₂ t ht).1.1
  · exact hL₂ _ List.mem_cons_self

/-- The response is inserted once its key is held. -/
theorem meets_insertResponseRow {Q : Post Response} {injectId userId : Nat}
    {groupId : Context} {content : String} {selectedOption : Option String}
    (h : ∀ row L' b' A', row.injectId = injectId → row.userId = userId →
      row.groupId = groupId → row.selectedOption = selectedOption → Kept b b' →
      (∀ row ∈ L, row ∈ L') → .response injectId userId ∈ L' →
      (∀ t, A' t → A t ∧ t.response? injectId userId = none) →
      Q row L' (Db.insertResponse row) b' A') :
    Meets Q (insertResponseRow injectId userId groupId content selectedOption) L id b A := by
  refine meets_bind.mpr (meets_now fun s₁ _ _ => ?_)
  refine meets_bind.mpr (meets_nextval fun s₂ _ _ => ?_)
  refine meets_bind.mpr (meets_forUpdate ?_)
  refine meets_bind.mpr (meets_selectOr (Failure.plain_of rfl) ?_)
  intro s₃ _ _ _ _
  refine meets_bind.mpr (meets_select fun s₄ _ _ => ?_)
  split
  · exact meets_raise_plain (Failure.plain_of rfl)
  · rename_i hfresh
    refine meets_bind.mpr (meets_execute (meets_pure ?_))
    have hkept : Kept b (((b <|> some s₁) <|> some s₃) <|> some s₄) :=
      .trans (.trans (.read b s₁) (.read _ s₃)) (.read _ s₄)
    refine h _ _ _ _ rfl rfl rfl rfl hkept (fun row hrow => List.mem_cons_of_mem _ hrow)
      List.mem_cons_self fun t ht => ⟨ht.1.1.1.1, ?_⟩
    exact ((Since.evolves ht).response _ _ List.mem_cons_self).trans hfresh

/-- A response touches no other row. -/
theorem neutral_insertResponse (row : Response) : Neutral (Db.insertResponse row) :=
  ⟨fun _ => rfl, fun _ => rfl, fun _ => rfl, fun _ => rfl, fun _ => rfl⟩

/-- The branch that a response selects stands at its commit. -/
theorem meets_computeNextInjectIds {Q : Post (List String)} {exercise : Exercise}
    {selectedOption : Option String} (hA : ∀ t, A t → SameDefinition exercise t)
    (hW : ∀ s, (W s).snapshots = s.snapshots ∧ (W s).scenario = s.scenario)
    (h : ∀ nextIds b' A', Kept b b' → (∀ t, A' t → A t) →
      (∀ t, A' t → nextIds = t.nextInjectIds inject selectedOption) → Q nextIds L W b' A') :
    Meets Q (computeNextInjectIds exercise inject selectedOption) L W b A := by
  refine meets_bind.mpr (meets_definitionForExercise hA hW fun definition b' A' hkept hA' => ?_)
  have hsub : ∀ t, A' t → A t := fun t ht => (hA' t ht).1
  cases definition with
  | none =>
      refine meets_pure (h _ _ _ hkept hsub fun t ht => ?_)
      rw [Db.nextInjectIds, (hA' t ht).2]
  | some definition =>
      cases hnode : nonEmpty inject.scenarioNodeId with
      | none =>
          refine meets_pure (h _ _ _ hkept hsub fun t ht => ?_)
          rw [Db.nextInjectIds, (hA' t ht).2, hnode]
      | some nodeId =>
          refine meets_pure (h _ _ _ hkept hsub fun t ht => ?_)
          rw [Db.nextInjectIds, (hA' t ht).2, hnode]

/-- The transaction of a response, by a user whose group the inject is for. -/
theorem meets_submitResponse {Q : Post Response} {exercise : Exercise} {userId : Nat}
    {content : String} {selectedOption : Option String} {groupId : Context}
    (hA : ∀ t, A t → LoadedReleased inject t)
    (hdefinition : ∀ t, A t → SameDefinition exercise t) (hactive : SawActive b A)
    (hvisible : injectMatchesGroup inject groupId) (hQ : Anywhere Q) :
    Meets Q (submitResponse exercise inject userId content selectedOption groupId) L id b A := by
  refine meets_onIntegrityError ?_ fun L W b A => ?_
  swap
  · exact meets_bind.mpr (meets_rollback (meets_raise_plain (Failure.plain_of rfl)))
  refine meets_bind.mpr (meets_insertResponseRow ?_)
  rintro row L₁ b₁ A₁ hinjectId rfl rfl rfl hkept₁ - hresponse hA₁
  refine meets_bind.mpr (meets_computeNextInjectIds
    (fun t ht => hdefinition t (hA₁ t ht).1) (fun _ => ⟨rfl, rfl⟩) ?_)
  intro nextIds b₂ A₂ hkept₂ hA₂ hnext
  refine meets_bind.mpr (meets_resolveResponseProgression (neutral_insertResponse row)
    (fun t ht => hA t (hA₁ t (hA₂ t ht)).1) ?_)
  intro _ L₃ W₃ b₃ A₃ now advances hkept₃ hL₃ hinjectRow hcursor hA₃ hresolved
  refine meets_bind.mpr (meets_execute (meets_bind.mpr ?_))
  refine enqueues_armCursorReachedInjects exercise _ _ _ _ A₃ trivial (fun _ ht => ht) ?_
  intro _ jobs b₄ A₄ hkept₄ hA₄ hjobs
  refine meets_bind.mpr (meets_commit (.respond row inject now (soleNext nextIds) jobs advances)
    ?_ (fun t ht hc => ?_) (meets_pure (hQ _ _ _ _ _)))
  · intro r hr
    simp only [Commit.rows, List.mem_append, List.mem_cons, List.not_mem_nil, or_false] at hr
    rcases hr with (rfl | rfl) | hr
    · exact hinjectRow
    · exact hinjectId ▸ hL₃ _ hresponse
    · split at hr
      · rename_i hadvances
        exact List.mem_singleton.mp hr ▸ hcursor hadvances
      · simp at hr
  · have hA₂t : A₂ t := hA₃ t (hA₄ t ht)
    obtain ⟨hknown, hfresh⟩ := hA₁ t (hA₂ t hA₂t)
    obtain ⟨hstep, htimed⟩ := hresolved t (hA₄ t ht) hc
    have hsaw : ReadActive b₄ t :=
      hactive.readActive (.trans (.trans hkept₁ hkept₂) (.trans hkept₃ hkept₄)) hknown
    refine ⟨⟨hsaw, hinjectId, (hA t hknown).current hc, hinjectId ▸ hfresh, hvisible,
      by rw [hnext t hA₂t], ?_, ?_, htimed⟩, ?_⟩
    · exact hstep.advances_of_open
    · exact fun job hjob => hjobs t ht hc job hjob
    · simp only [Function.comp_apply, hstep.writes]
      rfl

end IcebergTTX

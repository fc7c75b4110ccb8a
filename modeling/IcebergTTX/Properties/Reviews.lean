import IcebergTTX.Properties.Launch
import IcebergTTX.Transactions.Chronicle

/-!
# A suggestion is reviewed once

Any number of facilitators approve and reject suggestions in any interleaving.  An approval
checks the status under a lock of the row and keeps the lock to its commit.  A rejection
checks it on a row that it has not locked, so it can overwrite an approval, or another
rejection, that has committed meanwhile.  A suggestion is reviewed once, and an inject comes
of it exactly when it is approved, in the runs in which every rejection that commits finds it
still pending.

Main results:

- Definition {lit}`reviewProtocol`: what a commit does, and under which lock.
- Theorem {lit}`stages_review`: each review has one commit, its own.
- Theorem {lit}`reviewed_once`: one outcome, where no rejection comes late.
- Theorem {lit}`reviewed_twice`: a rejected suggestion whose inject has been created.
-/

namespace IcebergTTX

open Transactions Request

/-- A review of a suggestion. -/
inductive Review where
  | approve (user : CurrentUser) (suggestedId : Nat)
  | reject (user : CurrentUser) (suggestedId : Nat)
deriving DecidableEq

namespace Review

/-- The suggestion that is reviewed. -/
def suggestedId : Review → Nat
  | approve _ suggestedId | reject _ suggestedId => suggestedId

/-- The program of a review. -/
def code : Review → Request Answer
  | approve user suggestedId => approveRoute user suggestedId
  | reject user suggestedId => rejectRoute user suggestedId

/-- The status that a review gives. -/
def status : Review → SuggestedInjectStatus
  | approve .. => .approved
  | reject .. => .rejected

/-- What the only commit of a review writes. -/
def Writes : Review → Nat → (Db → Db) → Prop
  | approve user suggestedId, 0, W =>
      ∃ row now, W = (Commit.approve suggestedId row user.id now).apply
  | reject user suggestedId, 0, W => ∃ now, W = (Commit.reject suggestedId user.id now).apply
  | _, _, _ => False

end Review

/-- An inject has the text of a suggestion. -/
def Inject.IsFrom (inject : Inject) (suggestion : SuggestedInject) : Prop :=
  inject.title = suggestion.title ∧ inject.content = suggestion.content

/-- What a commit of a review does: an approval under the lock of a suggestion that is still
pending, with an inject that comes from it, or a rejection under the lock. -/
inductive ReviewAct (L : List Row) (s : Db) : Db → Prop where
  | approve (suggestion : SuggestedInject) (row : Inject) (reviewedBy : Nat) (now : Micros)
      (hlocked : .suggestedInject suggestion.id ∈ L)
      (hfound : s.suggestedInject? suggestion.id = some suggestion)
      (hpending : suggestion.status = .pendingReview) (hrow : row.IsFrom suggestion) :
      ReviewAct L s ((Commit.approve suggestion.id row reviewedBy now).apply s)
  | reject (suggestedId reviewedBy : Nat) (now : Micros)
      (hlocked : .suggestedInject suggestedId ∈ L) :
      ReviewAct L s ((Commit.reject suggestedId reviewedBy now).apply s)

/-- The guarantee of reviews. -/
def reviewProtocol : Protocol Db Row (Except Failure Answer) where
  inv _ := True
  act L _ := ReviewAct L
  reply _ _ := True
  inv_advance _ _ _ := trivial
  inv_bump _ _ := trivial
  inv_act _ _ _ _ _ _ := trivial
  reply_advance _ _ _ _ := trivial
  reply_bump _ _ _ := trivial
  reply_act _ _ _ _ _ _ _ _ := trivial

/-! ## Looking suggestions up -/

theorem Db.suggestedInject?_update (s : Db) (target : Nat)
    {f : SuggestedInject → SuggestedInject} (hf : ∀ row, (f row).id = row.id) (id : Nat) :
    (s.updateSuggestedInject target f).suggestedInject? id =
      if id = target then (s.suggestedInject? id).map f else s.suggestedInject? id := by
  by_cases h : id = target
  · subst h
    simpa [updateSuggestedInject, suggestedInject?] using
      Table.get_update_self hf s.suggestedInjects
  · simpa [updateSuggestedInject, suggestedInject?, h] using
      Table.get_update_of_ne hf h s.suggestedInjects

/-- An approval reviews its suggestion and no other. -/
theorem suggestedInject?_approve (s : Db) (suggestedId : Nat) (row : Inject) (reviewedBy : Nat)
    (now : Micros) (id : Nat) :
    ((Commit.approve suggestedId row reviewedBy now).apply s).suggestedInject? id =
      if id = suggestedId then (s.suggestedInject? id).map (·.review .approved reviewedBy now)
      else s.suggestedInject? id :=
  (s.insertInject row).suggestedInject?_update suggestedId
    (f := (·.review .approved reviewedBy now)) (fun _ => rfl) id

/-- A rejection reviews its suggestion and no other. -/
theorem suggestedInject?_reject (s : Db) (suggestedId reviewedBy : Nat) (now : Micros)
    (id : Nat) :
    ((Commit.reject suggestedId reviewedBy now).apply s).suggestedInject? id =
      if id = suggestedId then (s.suggestedInject? id).map (·.review .rejected reviewedBy now)
      else s.suggestedInject? id :=
  s.suggestedInject?_update suggestedId (f := (·.review .rejected reviewedBy now))
    (fun _ => rfl) id

/-- While a suggestion is locked, nobody else reviews it. -/
theorem stable_suggestedInject {L : List Row} {id : Nat} (hlocked : .suggestedInject id ∈ L)
    (found : Option SuggestedInject) :
    Stable reviewProtocol L fun s => s.suggestedInject? id = found := by
  intro s s' hother hs
  cases hother with
  | advance d _ => exact hs
  | bump _ => exact hs
  | @act _ L' _ _ hdisj hact =>
      have hne (other : Nat) (h : .suggestedInject other ∈ L') : id ≠ other :=
        fun heq => hdisj _ hlocked (heq ▸ h)
      cases hact with
      | approve suggestion row reviewedBy now h _ _ _ =>
          rw [suggestedInject?_approve, if_neg (hne _ h)]
          exact hs
      | reject suggestedId reviewedBy now h =>
          rw [suggestedInject?_reject, if_neg (hne _ h)]
          exact hs

/-! ## The obligations of a review -/

section

variable {α β : Type} {L : List Row} {W : Db → Db} {b : Option Db} {A : Db → Prop}

/-- The obligation of a request under the guarantee of reviews. -/
def Upheld (Q : Postcondition Db Row α) (p : Request α) :
    List Row → (Db → Db) → Option Db → (Db → Prop) → Prop :=
  Upholds reviewProtocol Q (ExceptT.mk p)

theorem silent_reviewProtocol : Silent reviewProtocol :=
  fun _ _ => trivial

theorem upheld_bind {Q : Postcondition Db Row β} {p : Request α} {f : α → Request β} :
    Upheld Q (p >>= f) L W b A ↔ Upheld (fun a => Upheld Q (f a)) p L W b A := by
  refine Safe.bind.trans (Eq.to_iff ?_)
  unfold Upheld Upholds
  congr
  funext answer
  cases answer <;> rfl

theorem upheld_looks {Q : Postcondition Db Row α} {p : Request α} (hp : Looks p)
    (h : ∀ a L' b' A', (∀ r ∈ L, r ∈ L') → Q a L' W b' A') : Upheld Q p L W b A :=
  upholds_looks silent_reviewProtocol hp fun a L' b' A' hL _ => h a L' b' A' hL

theorem upheld_select {Q : Postcondition Db Row α} {f : Db → α}
    (h : ∀ s, A s → Q (f (W s)) L W (b <|> some s) (Since reviewProtocol L s A)) :
    Upheld Q (select f) L W b A :=
  fun s hs _ => h s hs

theorem upheld_selectOr {Q : Postcondition Db Row α} {e : Failure} {f : Db → Option α}
    (h : ∀ s a, A s → f (W s) = some a → Q a L W (b <|> some s) (Since reviewProtocol L s A)) :
    Upheld Q (selectOr e f) L W b A := by
  refine upheld_bind.mpr (upheld_select fun s hs => ?_)
  cases ha : f (W s) with
  | none => exact fun _ _ _ => trivial
  | some a => exact h s a hs ha

theorem looks_requireRole (role : UserRole) (user : CurrentUser) :
    Looks (requireRole role user) :=
  looks_of_reads (reads_requireRole role user)

theorem looks_requireOperationalMutability (exercise : Exercise) :
    Looks (requireOperationalMutability exercise) :=
  looks_of_reads (reads_requireOperationalMutability exercise)

theorem looks_requireExerciseOwner (user : CurrentUser) :
    Looks (requireExerciseOwner user) :=
  looks_of_reads (reads_requireExerciseOwner user)

/-- An approval is upheld. -/
theorem upheld_approveRoute (user : CurrentUser) (suggestedId : Nat) :
    Upheld (fun _ _ _ _ _ => True) (approveRoute user suggestedId) L id b A := by
  refine upheld_bind.mpr (upheld_looks (looks_requireRole _ _) fun _ L₁ b₁ A₁ _ => ?_)
  refine upheld_bind.mpr (upheld_looks (looks_requireExerciseOwner _) fun exercise L₂ b₂ A₂ _ => ?_)
  refine upheld_bind.mpr (upheld_looks (looks_requireOperationalMutability _)
    fun _ L₃ b₃ A₃ _ => ?_)
  refine upheld_bind.mpr (upheld_looks (looks_lockConfigurationOwner _) fun owner L₄ b₄ A₄ _ => ?_)
  refine upheld_bind.mpr (upheld_looks (looks_requireOperationalMutability _)
    fun _ L₅ b₅ A₅ _ => ?_)
  refine upheld_bind.mpr (upholds_forUpdate (upheld_bind.mpr (upheld_selectOr ?_)))
  intro s suggestion _ hfound
  obtain rfl : suggestion.id = suggestedId := Table.key_of_get hfound
  split
  · exact fun _ _ _ => trivial
  rename_i hpending
  rw [not_not] at hpending
  refine upheld_bind.mpr fun s₁ _ _ => ?_
  refine upheld_bind.mpr (upheld_bind.mpr fun s₂ _ _ => upheld_bind.mpr ?_)
  refine upheld_bind.mpr fun s₃ _ _ => upheld_bind.mpr (upheld_bind.mpr ⟨?_, trivial⟩)
  intro t ht _
  -- The lock is still owned, so the suggestion is as it was checked.
  have hstill : t.suggestedInject? suggestion.id = some suggestion :=
    (stable_suggestedInject List.mem_cons_self _).rely ht.1.1.1.2 hfound
  exact .approve suggestion _ user.id _ List.mem_cons_self hstill hpending ⟨rfl, rfl⟩

/-- A rejection is upheld. -/
theorem upheld_rejectRoute (user : CurrentUser) (suggestedId : Nat) :
    Upheld (fun _ _ _ _ _ => True) (rejectRoute user suggestedId) L id b A := by
  refine upheld_bind.mpr (upheld_looks (looks_requireRole _ _) fun _ L₁ b₁ A₁ _ => ?_)
  refine upheld_bind.mpr (upheld_looks (looks_requireExerciseOwner _) fun exercise L₂ b₂ A₂ _ => ?_)
  refine upheld_bind.mpr (upheld_looks (looks_requireOperationalMutability _)
    fun _ L₃ b₃ A₃ _ => ?_)
  refine upheld_bind.mpr (upheld_selectOr fun s suggestion _ _ => ?_)
  split
  · exact fun _ _ _ => trivial
  refine upheld_bind.mpr fun s₁ _ _ => ?_
  refine upheld_bind.mpr (upholds_forUpdate (upheld_bind.mpr (upheld_bind.mpr ⟨?_, trivial⟩)))
  exact fun t _ _ => .reject suggestedId user.id s₁.clock List.mem_cons_self

/-- Every review keeps the guarantee. -/
theorem conforming_review (request : Review) : Conforming reviewProtocol request.code := by
  have hanswer {p : Request Answer}
      (h : Upheld (fun _ _ _ _ _ => True) p [] id none fun _ => True) :
      Conforming reviewProtocol p :=
    conforming_of_upholds (h.mono fun _ _ _ _ _ _ _ _ _ => trivial)
  cases request with
  | approve user suggestedId => exact hanswer (upheld_approveRoute user suggestedId)
  | reject user suggestedId => exact hanswer (upheld_rejectRoute user suggestedId)

/-! ## The commit of a review -/

theorem stages_bind {E : Nat → (Db → Db) → Prop} {Q : Except Failure β → (Db → Db) → Nat → Prop}
    {p : Request α} {f : α → Request β} {n : Nat} :
    Stages E Q (p >>= f : Request β) W n ↔
      Stages E (fun answer W n =>
        match answer with
        | .ok a => Stages E Q (f a) W n
        | .error e => Q (.error e) W n) p W n := by
  refine Stages.bind.trans (Eq.to_iff ?_)
  congr
  funext answer
  cases answer <;> rfl

/-- The stages of a request that first looks are those of what it does then. -/
theorem stages_looks {E : Nat → (Db → Db) → Prop} {p : Request α} {f : α → Request β} {n : Nat}
    (hp : Looks p) (h : ∀ a, Stages E (fun _ _ _ => True) (f a) W n) :
    Stages E (fun _ _ _ => True) (p >>= f : Request β) W n := by
  refine stages_bind.mpr (Stages.of_looks hp fun answer => ?_)
  cases answer with
  | ok a => exact h a
  | error e => trivial

/-- A review commits once, what its kind writes. -/
theorem stages_review (request : Review) :
    Stages request.Writes (fun _ _ _ => True) request.code id 0 := by
  cases request with
  | approve user suggestedId =>
      refine stages_looks (looks_requireRole _ _) fun _ => ?_
      refine stages_looks (looks_requireExerciseOwner _) fun exercise => ?_
      refine stages_looks (looks_requireOperationalMutability _) fun _ => ?_
      refine stages_looks (looks_lockConfigurationOwner _) fun owner => ?_
      refine stages_looks (looks_requireOperationalMutability _) fun _ => ?_
      refine stages_looks (p := forUpdate _) trivial fun _ => ?_
      refine stages_looks (looks_selectOr _ _) fun suggestion => ?_
      split
      · trivial
      refine stages_looks (fun _ => trivial) fun order => ?_
      exact stages_bind.mpr fun id => stages_bind.mpr fun s => ⟨⟨_, s.clock, rfl⟩, trivial⟩
  | reject user suggestedId =>
      refine stages_looks (looks_requireRole _ _) fun _ => ?_
      refine stages_looks (looks_requireExerciseOwner _) fun exercise => ?_
      refine stages_looks (looks_requireOperationalMutability _) fun _ => ?_
      refine stages_looks (looks_selectOr _ _) fun suggestion => ?_
      split
      · trivial
      exact stages_bind.mpr fun s => ⟨⟨s.clock, rfl⟩, trivial⟩

end

/-! ## One outcome -/

/-- Any number of reviews, with the commits of each. -/
abbrev Reviews :=
  Chronicle Db Row (Except Failure Answer) Review

/-- A step of the reviews. -/
abbrev Reviews.step : Reviews → Label Review → Option Reviews :=
  Chronicle.step Review.code

/-- The status of a suggestion. -/
def Db.suggestionStatus? (s : Db) (suggestedId : Nat) : Option SuggestedInjectStatus :=
  (s.suggestedInject? suggestedId).map (·.status)

/-- The reviews of a suggestion that have committed, in their order. -/
def reviewsOf (suggestedId : Nat) (log : List (Review × Nat)) : List Review :=
  (log.map (·.1)).filter (·.suggestedId = suggestedId)

/-- The approvals that have committed, in their order. -/
def approvals (log : List (Review × Nat)) : List Review :=
  (log.map (·.1)).filter (·.status = .approved)

/-- A rejection that commits finds its suggestion still pending. -/
def Timely (c : Reviews) (_ : Label Review) (c' : Reviews) : Prop :=
  ∀ entry ∈ c'.log.drop c.log.length, entry.1.status = .rejected →
    c.world.db.suggestionStatus? entry.1.suggestedId = some .pendingReview

instance (c : Reviews) (l : Label Review) (c' : Reviews) : Decidable (Timely c l c') :=
  inferInstanceAs (Decidable (∀ entry ∈ _, _))

/-- The status that the committed reviews of a suggestion leave it with: of no review, or
of the only one. -/
def outcome : List Review → Option SuggestedInjectStatus
  | [] => some .pendingReview
  | [review] => some review.status
  | _ => none

/-- A review of a suggestion yields an inject of its text. -/
def Db.Yields (s : Db) (review : Review) (inject : Inject) : Prop :=
  ∃ suggestion, s.suggestedInject? review.suggestedId = some suggestion ∧
    inject.IsFrom suggestion

/-- The invariant of the reviews: every suggestion that was pending at the start has the
outcome of its reviews, and the injects created come from those approved, in turn. -/
structure Reviewed (s₀ s : Db) (log : List (Review × Nat)) : Prop where
  present : ∀ id, (s.suggestedInject? id).isSome = (s₀.suggestedInject? id).isSome
  text : ∀ id suggestion, s.suggestedInject? id = some suggestion →
    ∃ first, s₀.suggestedInject? id = some first ∧ first.title = suggestion.title ∧
      first.content = suggestion.content
  settled : ∀ id, s₀.suggestionStatus? id = some .pendingReview →
    s.suggestionStatus? id = outcome (reviewsOf id log)
  created : ∃ created : List (Review × Inject), s.injects = s₀.injects ++ created.map Prod.snd ∧
    created.map Prod.fst = approvals log ∧ ∀ pair ∈ created, s₀.Yields pair.1 pair.2

theorem injects_approve (s : Db) (suggestedId : Nat) (row : Inject) (reviewedBy : Nat)
    (now : Micros) :
    ((Commit.approve suggestedId row reviewedBy now).apply s).injects = s.injects ++ [row] :=
  rfl

/-- An approval commits on a suggestion that is still pending, with an inject of its text. -/
theorem pending_of_approve {w : World Db Row (Except Failure Answer)} {l : Label Review}
    {suggestedId reviewedBy : Nat} {row : Inject} {now : Micros} {s' : Db}
    (heffect : Effect reviewProtocol w l s')
    (hs' : s' = (Commit.approve suggestedId row reviewedBy now).apply w.db) :
    ∃ suggestion, w.db.suggestedInject? suggestedId = some suggestion ∧
      suggestion.status = .pendingReview ∧ row.IsFrom suggestion := by
  have hinjects : s'.injects = w.db.injects ++ [row] := by rw [hs', injects_approve]
  cases heffect with
  | keep => simp at hinjects
  | advance d => simp [Ambient.advance] at hinjects
  | bump i => simp [Ambient.bump] at hinjects
  | commit i se L k hse hprog howner hact =>
      generalize se.writes w.db = s' at hact hs' hinjects
      cases hact with
      | reject other by_ t hlocked =>
          exact absurd hinjects (by simp [Commit.apply, Db.updateSuggestedInject])
      | approve suggestion row' by_ t hlocked hfound hpending hrow =>
          rw [injects_approve, List.append_cancel_left_eq, List.singleton_inj] at hinjects
          subst hinjects
          by_cases heq : suggestion.id = suggestedId
          · exact ⟨suggestion, heq ▸ hfound, hpending, hrow⟩
          · -- Another suggestion would be left pending by the one, and approved by the other.
            have hlookup := congrArg (·.suggestedInject? suggestion.id) hs'
            simp only [suggestedInject?_approve, if_pos, if_neg heq, hfound, Option.map_some,
              Option.some.injEq] at hlookup
            have hstatus := congrArg (·.status) hlookup
            simp [SuggestedInject.review, hpending] at hstatus

/-- Only no review at all leaves a suggestion pending. -/
theorem outcome_eq_pending_iff {reviews : List Review} :
    outcome reviews = some .pendingReview ↔ reviews = [] := by
  match reviews with
  | [] => simp [outcome]
  | [.approve _ _] => simp [outcome, Review.status]
  | [.reject _ _] => simp [outcome, Review.status]
  | _ :: _ :: _ => simp [outcome]

theorem reviewsOf_append (id : Nat) (log : List (Review × Nat)) (request : Review) (n : Nat) :
    reviewsOf id (log ++ [(request, n)]) =
      reviewsOf id log ++ if request.suggestedId = id then [request] else [] := by
  by_cases h : request.suggestedId = id <;> simp [reviewsOf, h]

theorem approvals_append (log : List (Review × Nat)) (request : Review) (n : Nat) :
    approvals (log ++ [(request, n)]) =
      approvals log ++ if request.status = .approved then [request] else [] := by
  by_cases h : request.status = .approved <;> simp [approvals, h]

/-- A review of a pending suggestion settles it. -/
theorem Reviewed.review {s₀ s s' : Db} {log : List (Review × Nat)} (h : Reviewed s₀ s log)
    {request : Review} {reviewedBy n : Nat} {now : Micros}
    (hpending : s.suggestionStatus? request.suggestedId = some .pendingReview)
    (hlookup : ∀ id, s'.suggestedInject? id = if id = request.suggestedId then
      (s.suggestedInject? id).map (·.review request.status reviewedBy now)
      else s.suggestedInject? id)
    (hcreated : ∃ new : List (Review × Inject), s'.injects = s.injects ++ new.map Prod.snd ∧
      new.map Prod.fst = (if request.status = .approved then [request] else []) ∧
        ∀ pair ∈ new, s.Yields pair.1 pair.2) :
    Reviewed s₀ s' (log ++ [(request, n)]) := by
  constructor
  · intro id
    rw [hlookup, ← h.present id]
    split <;> simp
  · intro id suggestion hfound
    rw [hlookup] at hfound
    split at hfound
    · obtain ⟨before, hbefore, rfl⟩ := Option.map_eq_some_iff.mp hfound
      exact h.text id before hbefore
    · exact h.text id suggestion hfound
  · intro id hid
    have hsettled := h.settled id hid
    rw [reviewsOf_append]
    by_cases heq : id = request.suggestedId
    · subst heq
      rw [hpending, eq_comm, outcome_eq_pending_iff] at hsettled
      obtain ⟨suggestion, hfound, -⟩ := Option.map_eq_some_iff.mp hpending
      simp [hsettled, Db.suggestionStatus?, hlookup, hfound, outcome, SuggestedInject.review]
    · simpa [Db.suggestionStatus?, hlookup, heq, Ne.symm heq] using hsettled
  · obtain ⟨created, hinjects, hlog, hyields⟩ := h.created
    obtain ⟨new, hinjects', hlog', hyields'⟩ := hcreated
    refine ⟨created ++ new, by simp [hinjects', hinjects], ?_, fun pair hpair => ?_⟩
    · rw [List.map_append, hlog, hlog', approvals_append]
    · rcases List.mem_append.mp hpair with hpair | hpair
      · exact hyields pair hpair
      · obtain ⟨suggestion, hfound, htitle, hcontent⟩ := hyields' pair hpair
        obtain ⟨first, hfirst, htitle', hcontent'⟩ := h.text _ _ hfound
        exact ⟨first, hfirst, htitle.trans htitle'.symm, hcontent.trans hcontent'.symm⟩

/-- Run lemma: the invariant holds in every run in which no rejection comes late. -/
theorem reviewed_of_runs {s₀ : Db} {c : Reviews}
    (hrun : Runs Reviews.step Timely (Chronicle.idle s₀) c) :
    Reviewed s₀ c.world.db c.log := by
  refine Chronicle.invariant (I := fun s _ log => Reviewed s₀ s log) stages_review ?_
    (fun _ _ _ _ h => ⟨h.present, h.text, h.settled, h.created⟩)
    (fun _ _ _ h => ⟨h.present, h.text, h.settled, h.created⟩) (fun _ _ _ _ _ h => h) ?_ hrun
  · exact ⟨fun _ => rfl, fun _ suggestion h => ⟨suggestion, h, rfl, rfl⟩, fun _ h => h,
      [], by simp, rfl, by simp⟩
  intro c c' l i request n W hprev hstep htimely h hi hwrites hdb hlog
  match request, n, hwrites with
  | .approve user suggestedId, 0, ⟨row, now, hW⟩ =>
      subst hW
      have hconforms := (Conforms.idle trivial).run conforming_review
        (Chronicle.world_of_runs hprev)
      have heffect := (hconforms.step conforming_review (Chronicle.world_of_step hstep)).2
      obtain ⟨suggestion, hfound, hpending, hrow⟩ := pending_of_approve heffect hdb
      refine h.review (by simp [Review.suggestedId, Db.suggestionStatus?, hfound, hpending])
        (suggestedInject?_approve c.world.db suggestedId row user.id now)
        ⟨[(.approve user suggestedId, row)], rfl, rfl, ?_⟩
      simpa using ⟨suggestion, hfound, hrow⟩
  | .reject user suggestedId, 0, ⟨now, hW⟩ =>
      subst hW
      exact h.review (htimely (.reject user suggestedId, 0) (by simp [hlog]) rfl)
        (suggestedInject?_reject c.world.db suggestedId user.id now)
        ⟨[], (List.append_nil _).symm, rfl, by simp⟩

/-- In every interleaving of any number of approvals and rejections in which every rejection
that commits finds its suggestion still pending, at most one review of a suggestion commits,
and of the injects created, one comes from it exactly when it is approved. -/
theorem reviewed_once {s₀ : Db} {c : Reviews}
    (hrun : Runs Reviews.step Timely (Chronicle.idle s₀) c) (suggestedId : Nat)
    (hpending : s₀.suggestionStatus? suggestedId = some .pendingReview) :
    (reviewsOf suggestedId c.log).length ≤ 1 ∧
      ∃ created : List (Review × Inject),
        c.world.db.injects = s₀.injects ++ created.map Prod.snd ∧
        (∀ pair ∈ created, s₀.Yields pair.1 pair.2) ∧
        ((∃ pair ∈ created, pair.1.suggestedId = suggestedId) ↔
          c.world.db.suggestionStatus? suggestedId = some .approved) := by
  have h := reviewed_of_runs hrun
  have hsettled := h.settled suggestedId hpending
  obtain ⟨created, hinjects, hlog, hyields⟩ := h.created
  have hstatus : (c.world.db.suggestionStatus? suggestedId).isSome := by
    have hpresent := h.present suggestedId
    have hsome : (s₀.suggestedInject? suggestedId).isSome := by
      simpa [Db.suggestionStatus?] using congrArg Option.isSome hpending
    simpa [Db.suggestionStatus?] using hpresent.trans hsome
  have hmem : (∃ pair ∈ created, pair.1.suggestedId = suggestedId) ↔
      ∃ review ∈ reviewsOf suggestedId c.log, review.status = .approved := by
    constructor
    · rintro ⟨pair, hpair, hid⟩
      have happroved : pair.1 ∈ approvals c.log := hlog ▸ List.mem_map_of_mem hpair
      rw [approvals, List.mem_filter, decide_eq_true_iff] at happroved
      exact ⟨pair.1, List.mem_filter.mpr ⟨happroved.1, by simpa using hid⟩, happroved.2⟩
    · rintro ⟨review, hreview, happroved⟩
      rw [reviewsOf, List.mem_filter, decide_eq_true_iff] at hreview
      have hmem : review ∈ created.map Prod.fst := by
        rw [hlog, approvals, List.mem_filter]
        exact ⟨hreview.1, by simpa using happroved⟩
      obtain ⟨pair, hpair, rfl⟩ := List.mem_map.mp hmem
      exact ⟨pair, hpair, hreview.2⟩
  rw [hsettled] at hstatus
  rw [hsettled]
  suffices (reviewsOf suggestedId c.log).length ≤ 1 ∧
      ((∃ review ∈ reviewsOf suggestedId c.log, review.status = .approved) ↔
        outcome (reviewsOf suggestedId c.log) = some .approved) from
    ⟨this.1, created, hinjects, hyields, hmem.trans this.2⟩
  match reviewsOf suggestedId c.log, hstatus with
  | [], _ => simp [outcome]
  | [review], _ => simp [outcome]

/-! ## Samples -/

/-- A running exercise with one suggestion to review. -/
def sampleSuggested : Db :=
  { sampleDraft [sampleNode] with
    exercise := { (sampleDraft [sampleNode]).exercise with state := .active }
    suggestedInjects :=
      [{ id := 7, triggeredByResponseId := 8, title := "More", content := "Read on"
         llmModel := "model", generatedAt := 0 }] }

/-- A rejection that follows an approval is refused. -/
theorem reviewed_once_sample :
    ∃ c, Runs Reviews.step Timely (Chronicle.idle sampleSuggested) c ∧
      c.world.replies = [(0, .ok (.inject 101)), (1, .error .onlyPendingRejected)] ∧
      (reviewsOf 7 c.log).length ≤ 1 ∧
      ∃ created : List (Review × Inject),
        c.world.db.injects = sampleSuggested.injects ++ created.map Prod.snd ∧
        (∀ pair ∈ created, sampleSuggested.Yields pair.1 pair.2) ∧
        ((∃ pair ∈ created, pair.1.suggestedId = 7) ↔
          c.world.db.suggestionStatus? 7 = some .approved) := by
  have hschedule : (schedule Reviews.step (fun c l c' => decide (Timely c l c'))
      (Chronicle.idle sampleSuggested)
      (.start 0 (.approve sampleOwner 7) :: List.replicate 14 (.stmt 0) ++
        .start 1 (.reject sampleOwner 7) :: List.replicate 3 (.stmt 1))).any
        (fun c => c.world.replies =
          [(0, .ok (.inject 101)), (1, .error .onlyPendingRejected)]) = true := by
    decide +kernel
  obtain ⟨c, hrun, hend⟩ := Runs.exists_of_schedule (fun _ _ _ h => of_decide_eq_true h) hschedule
  exact ⟨c, hrun, of_decide_eq_true hend, reviewed_once hrun 7 (by decide +kernel)⟩

/-- A rejection reads the suggestion before an approval commits and writes it afterwards:
both succeed, and the suggestion ends rejected with its inject created. -/
theorem reviewed_twice :
    ∃ c, Runs Reviews.step (fun _ _ _ => True) (Chronicle.idle sampleSuggested) c ∧
      c.world.replies = [(1, .ok (.inject 101)), (0, .ok (.suggestion 7))] ∧
      (reviewsOf 7 c.log).length = 2 ∧ (c.world.db.inject? 101).isSome ∧
      c.world.db.suggestionStatus? 7 = some .rejected := by
  have hschedule : (schedule Reviews.step (fun _ _ _ => true) (Chronicle.idle sampleSuggested)
      (.start 0 (.reject sampleOwner 7) :: List.replicate 2 (.stmt 0) ++
        .start 1 (.approve sampleOwner 7) :: List.replicate 14 (.stmt 1) ++
          List.replicate 5 (.stmt 0))).any
        (fun c => c.world.replies = [(1, .ok (.inject 101)), (0, .ok (.suggestion 7))] ∧
          (reviewsOf 7 c.log).length = 2 ∧ (c.world.db.inject? 101).isSome ∧
          c.world.db.suggestionStatus? 7 = some .rejected) = true := by
    decide +kernel
  obtain ⟨c, hrun, hend⟩ := Runs.exists_of_schedule (fun _ _ _ _ => trivial) hschedule
  exact ⟨c, hrun, of_decide_eq_true hend⟩

end IcebergTTX

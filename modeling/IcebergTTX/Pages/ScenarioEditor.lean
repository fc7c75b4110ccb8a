import IcebergTTX.Pages.ScenarioBuilder

/-!
# Editing in the scenario builder

What the controls of {lit}`app/templates/scenarios/editor.html` do to the form.  A control that
offers a choice of ids offers those of the rows that there are; an edit that is not offered is
not made.  Any row can be selected, so an edit names its row by position.

Main results:

- Definition {lit}`Form.removeInject`: references to a removed inject are dropped.
- Definition {lit}`Form.renameTeam`: audiences follow a team to its new id.
- Definition {lit}`Form.edit`: what an edit makes of a form, if it is offered.
-/

namespace IcebergTTX

/-! ## Rows -/

/-- {lit}`makeOption`. -/
def makeOption (id : String) : OptionRow :=
  { id, label := "" }

/-- {lit}`makeInject`. -/
def makeInject (id : String) : InjectRow :=
  let injectId := orText id "inject_01"
  { editingId := injectId, id := injectId, title := "", content := "" }

/-- The id of a team while it is edited. -/
def TeamRow.typed (text : String) (team : TeamRow) : TeamRow :=
  { team with editingId := team.id, id := text }

/-- The id of a team once it is committed. -/
def TeamRow.committed (next : String) (team : TeamRow) : TeamRow :=
  { team with editingId := next, id := next }

namespace InjectRow

variable (inject : InjectRow)

/-- The audience without a team that has been removed. -/
def withoutTeam (teamId : String) : InjectRow :=
  { inject with targetTeams := inject.targetTeams.filter (· ≠ teamId) }

/-- The audience after a team has got another id. -/
def retarget (previous next : String) : InjectRow :=
  { inject with
    targetTeams := inject.targetTeams.map fun teamId =>
      if teamId = previous then next else teamId }

/-- The references without those to an inject that has been removed. -/
def withoutInject (id : String) : InjectRow :=
  let kept (reference : Option String) := if reference = some id then none else reference
  { inject with
    nextInjectId := kept inject.nextInjectId
    options := inject.options.map fun option =>
      { option with nextInjectId := kept option.nextInjectId } }

/-- {lit}`toggleInjectTeam`. -/
def toggleTeam (teamId : String) (checked : Bool) : InjectRow :=
  if teamId = "" then inject
  else if checked then
    if teamId ∈ inject.targetTeams then inject
    else { inject with targetTeams := inject.targetTeams ++ [teamId] }
  else inject.withoutTeam teamId

/-- {lit}`nextOptionId`. -/
def nextOptionId : String :=
  nextSequentialId "opt" ((inject.options.map (·.id)).filter (· ≠ ""))

/-- {lit}`addOption`: an inject with options has no linear next inject. -/
def addOption : InjectRow :=
  { inject with
    nextInjectId := none
    options := inject.options ++ [makeOption inject.nextOptionId] }

/-- Edit one option. -/
def editOption (index : Nat) (f : OptionRow → OptionRow) : InjectRow :=
  { inject with options := inject.options.modify index f }

/-- Rename an option: type a text, and leave it.  The expression that should write the id anew
calls {lit}`normalizeId`, which is no member of the component: its evaluation fails, and the id
stays as it was typed. -/
def renameOption (index : Nat) (text : String) : InjectRow :=
  inject.editOption index ({ · with id := text })

end InjectRow

/-! ## Forms -/

namespace Form

variable (form : Form)

/-- The ids of all teams. -/
def rowTeamIds : List String :=
  form.participantTeams.map (·.id)

/-- {lit}`init` of a new scenario. -/
def new : Form :=
  let first := makeInject "inject_01"
  { injects := [first], startInjectId := first.id }

/-- {lit}`addTeam`. -/
def addTeam : Form :=
  let id := form.nextTeamId
  { form with
    participantTeams := form.participantTeams ++ [{ editingId := id, id, label := .str "" }] }

/-- {lit}`removeTeam`, for the team at a position. -/
def removeTeam (index : Nat) : Form :=
  match form.participantTeams[index]? with
  | none => form
  | some removed =>
    { form with
      participantTeams := form.participantTeams.eraseIdx index
      injects :=
        if removed.id = "" then form.injects else form.injects.map (·.withoutTeam removed.id) }

/-- {lit}`commitTeamId`, for the team at a position. -/
def commitTeamId (index : Nat) : Form :=
  match form.participantTeams[index]? with
  | none => form
  | some team =>
    let previous := orText team.editingId team.id
    let next := normalizeId team.id form.nextTeamId
    let participantTeams := form.participantTeams.modify index (·.committed next)
    if previous ≠ "" ∧ previous ≠ next then
      { form with participantTeams, injects := form.injects.map (·.retarget previous next) }
    else { form with participantTeams }

/-- Rename the team at a position: focus its id, type a text, and leave it. -/
def renameTeam (index : Nat) (text : String) : Form :=
  { form with
    participantTeams := form.participantTeams.modify index (·.typed text) }.commitTeamId index

/-- {lit}`addInject`. -/
def addInject : Form :=
  let inject := makeInject form.nextInjectId
  { form with
    injects := form.injects ++ [inject], startInjectId := orText form.startInjectId inject.id }

/-- {lit}`removeInject`, for the inject at a position. -/
def removeInject (index : Nat) : Form :=
  match form.injects[index]? with
  | none => form
  | some removed =>
    let others := form.injects.eraseIdx index
    let injects := if removed.id = "" then others else others.map (·.withoutInject removed.id)
    { form with
      injects
      startInjectId :=
        if form.startInjectId = removed.id then (injects.head?.map (·.id)).getD ""
        else form.startInjectId }

/-- {lit}`moveActiveInject`, for the inject at a position. -/
def moveInject (source : Nat) (direction : Int) : Form :=
  let target := source + direction
  match form.injects[source]? with
  | none => form
  | some inject =>
    if target < 0 ∨ (form.injects.length : Int) ≤ target then form
    else { form with injects := (form.injects.eraseIdx source).insertIdx target.toNat inject }

/-- Edit one inject. -/
def editInject (index : Nat) (f : InjectRow → InjectRow) : Form :=
  { form with injects := form.injects.modify index f }

end Form

/-! ## Edits -/

/-- An edit of the form.  The texts of an inject are taken together. -/
inductive Edit where
  | applyDefinition (file : ScenarioFile)
  | title (text : String)
  | description (text : String)
  | author (text : String)
  | estimatedDurationMinutes (minutes : Rat)
  | tagsInput (text : String)
  | debriefNotes (text : String)
  | startInject (id : String)
  | addTeam
  | removeTeam (index : Nat)
  | renameTeam (index : Nat) (text : String)
  | teamLabel (index : Nat) (label : String)
  | addInject
  | removeInject (index : Nat)
  | moveInject (index : Nat) (direction : Int)
  | renameInject (index : Nat) (text : String)
  | injectTexts (index : Nat) (title content : String) (freeTextResponse : Bool)
  | toggleTeam (index : Nat) (teamId : String) (checked : Bool)
  | clearTeams (index : Nat)
  | nextInject (index : Nat) (id : String)
  | addOption (index : Nat)
  | removeOption (index option : Nat)
  | renameOption (index option : Nat) (text : String)
  | optionLabel (index option : Nat) (label : String)
  | optionNext (index option : Nat) (id : String)
  | addExpectedAction (index : Nat)
  | removeExpectedAction (index action : Nat)
  | expectedAction (index action : Nat) (text : String)

/-- What an edit makes of a form, if it is offered. -/
def Form.edit (form : Form) : Edit → Option Form
  | .applyDefinition file => some (form.applyDefinition file)
  | .title text => some { form with title := text }
  | .description text => some { form with description := .str text }
  | .author text => some { form with author := .str text }
  | .estimatedDurationMinutes minutes => some { form with estimatedDurationMinutes := minutes }
  | .tagsInput text => some { form with tagsInput := text }
  | .debriefNotes text => some { form with debriefNotes := .str text }
  | .startInject id =>
    if id ∈ form.injects.map (·.id) then some { form with startInjectId := id } else none
  | .addTeam => some form.addTeam
  | .removeTeam index => some (form.removeTeam index)
  | .renameTeam index text => some (form.renameTeam index text)
  | .teamLabel index label =>
    some { form with
      participantTeams := form.participantTeams.modify index ({ · with label := .str label }) }
  | .addInject => some form.addInject
  | .removeInject index => some (form.removeInject index)
  | .moveInject index direction => some (form.moveInject index direction)
  | .renameInject index text => some (form.renameInject index text)
  | .injectTexts index title content freeTextResponse =>
    some (form.editInject index ({ · with
      title := title, content := content, freeTextResponse := freeTextResponse }))
  | .toggleTeam index teamId checked =>
    if teamId ∈ form.rowTeamIds then
      some (form.editInject index (·.toggleTeam teamId checked))
    else none
  | .clearTeams index => some (form.editInject index ({ · with targetTeams := [] }))
  | .nextInject index id =>
    -- The control is there for an inject without options, and offers the other injects.
    if (id = "" ∨ id ∈ (form.injects.eraseIdx index).map (·.id)) ∧
        form.injects[index]?.any (·.options = []) then
      some (form.editInject index ({ · with nextInjectId := some id }))
    else none
  | .addOption index => some (form.editInject index (·.addOption))
  | .removeOption index option =>
    some (form.editInject index fun inject =>
      { inject with options := inject.options.eraseIdx option })
  | .renameOption index option text => some (form.editInject index (·.renameOption option text))
  | .optionLabel index option label =>
    some (form.editInject index (·.editOption option ({ · with label := label })))
  | .optionNext index option id =>
    if id = "" ∨ id ∈ form.injects.map (·.id) then
      some (form.editInject index
        (·.editOption option ({ · with nextInjectId := nonEmpty (some id) })))
    else none
  | .addExpectedAction index =>
    some (form.editInject index fun inject =>
      { inject with expectedActions := inject.expectedActions ++ [.str ""] })
  | .removeExpectedAction index action =>
    some (form.editInject index fun inject =>
      { inject with expectedActions := inject.expectedActions.eraseIdx action })
  | .expectedAction index action text =>
    some (form.editInject index fun inject =>
      { inject with expectedActions := inject.expectedActions.set action (.str text) })

/-- A new scenario is an empty form to which an inject has been added. -/
example : ({} : Form).addInject = Form.new :=
  rfl

end IcebergTTX

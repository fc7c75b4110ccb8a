import IcebergTTX.Models.Tables

/-!
# The clock of the pages

{lit}`exerciseElapsedSeconds` of {lit}`static/js/app.js`, on the exercise as the API gives it.
A {lit}`Date` counts whole milliseconds and drops what a timestamp has below them.  The pauses
are the column's, and seconds are told in microseconds, so that the rounding of the doubles
that the page divides and subtracts, far below a microsecond, does not show.

Main results:

- Definition {lit}`exerciseElapsedSeconds`: the running time that a page shows.
-/

namespace IcebergTTX

/-- Milliseconds since the epoch, as a {lit}`Date` counts them. -/
abbrev Millis := Int

/-- {lit}`new Date(timestamp).getTime()`, which drops what is below the millisecond, and
{lit}`Date.now()` at that time. -/
def getTime (timestamp : Micros) : Millis :=
  timestamp / 1000

/-- The time that the clock of an exercise stands at: that of the pause, of the end, or the
current one.  {lit}`Date.now()` stands in for a current time of zero. -/
def clockReference (exercise : Exercise) (nowMs dateNow : Millis) : Millis :=
  match exercise.state, exercise.pausedAt, exercise.endedAt with
  | .paused, some pausedAt, _ => getTime pausedAt
  | .completed, _, some endedAt => getTime endedAt
  | _, _, _ => if nowMs = 0 then dateNow else nowMs

/-- {lit}`exerciseElapsedSeconds`: the milliseconds between, as a time, less the pauses. -/
def exerciseElapsedSeconds (exercise : Exercise) (nowMs dateNow : Millis) : Option Micros :=
  exercise.startedAt.map fun start =>
    max 0 ((clockReference exercise nowMs dateNow - getTime start) * 1000 -
      exercise.accumulatedPauseSeconds)

end IcebergTTX

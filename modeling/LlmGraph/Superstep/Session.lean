/- digest: A served session: its runs, the commands it takes between and during them, and when it is
   paused. -/

import LlmGraph.Superstep.Atomic

set_option autoImplicit false
set_option relaxedAutoImplicit false

namespace LlmGraph.Superstep

variable {C : Type} [Conversation C]

/-- A session between runs; its graph, its configuration and its context never change. -/
structure Session (C : Type) [Conversation C] where
  state : State C
  cursor : Option Cursor
  pending : PendingWrites C
  paused : Bool

inductive Start where
  | Now
  | OnInput
  deriving DecidableEq, Repr

/-- How serving ended. -/
inductive Ended (C : Type) [Conversation C] where
  | Cancelled (checkpoint : Checkpoint C)
  | Failed (checkpoint : Checkpoint C) (error : GraphError C)

/-- A session being served waits for its next command, or serving has ended. -/
inductive Served (C : Type) [Conversation C] where
  | Waits (session : Session C)
  | Ends (ended : Ended C)

/-- A command taken between runs, with the schedules of the run that it starts, if it starts one. -/
structure Message (C : Type) [Conversation C] where
  command : Command C
  plan : List (Schedule C)

namespace Session

/-- `Session::absorb`, on what `run_once` left in the session. -/
def absorb (session : Session C) : Outcome C → Session C
  | .Finished state _ => { session with state := state, cursor := none, paused := false }
  | .Paused given => ⟨given.state, some given.cursor, given.pending, true⟩
  | .Cancelled given => ⟨given.state, some given.cursor, given.pending, false⟩
  | .Failed _ given => ⟨given.state, some given.cursor, given.pending, session.paused⟩

/-- The session's checkpoint: its cursor is empty when there is none. -/
def checkpoint (session : Session C) : Checkpoint C :=
  ⟨session.state, session.cursor.getD ⟨[], []⟩, session.pending⟩

def applyInput (session : Session C) (key : Key) (input : Conversation.UserInput C) :
    Except (GraphError C) (Session C) :=
  match session.state.applyBatch [.input key input] with
  | .error error => .error error
  | .ok state => .ok { session with state := state }

section Made

variable [DecidableEq C] (graph : Graph C) (config : Config C)

def new (state : State C) : Except (GraphError C) (Session C) :=
  match graph.checkSchemas state config with
  | .error error => .error error
  | .ok () => .ok ⟨state, none, PendingWrites.empty, false⟩

/-- `Session::resume`: an empty cursor is none. -/
def resume (given : Checkpoint C) : Except (GraphError C) (Session C) :=
  match graph.checkSchemas given.state config with
  | .error error => .error error
  | .ok () =>
      match graph.validateCursor given.cursor with
      | .error error => .error error
      | .ok () => .ok ⟨given.state, if given.cursor.isEmpty then none else some given.cursor,
          given.pending, false⟩

end Made

section Serve

variable [DecidableEq C] (graph : Graph C) (config : Config C) (occurrence : OccurrenceKey)

/-- Run once from the session's cursor, with its pending writes, and keep the outcome's. -/
def runOnce (session : Session C) (plan : List (Schedule C)) :
    Option (Session C × Outcome C) :=
  (run graph config occurrence session.pending session.state session.cursor plan).map fun outcome =>
    (absorb { session with cursor := none, pending := PendingWrites.empty } outcome, outcome)

def pump (session : Session C) (plan : List (Schedule C)) : Option (Served C) :=
  (runOnce graph config occurrence session plan).map fun (session, outcome) =>
    match outcome with
    | .Finished _ _ | .Paused _ => .Waits session
    | .Cancelled given => .Ends (.Cancelled given)
    | .Failed error _ => .Ends (.Failed session.checkpoint error)

/-- A command that starts no run has no schedules. -/
def still (plan : List (Schedule C)) (served : Served C) : Option (Served C) :=
  if plan.isEmpty then some served else none

/-- One round of the loop of `serve`: a command taken between runs. -/
def obey (session : Session C) (plan : List (Schedule C)) : Command C → Option (Served C)
  | .input key input =>
      match session.applyInput key input with
      | .error error => still plan (.Ends (.Failed session.checkpoint error))
      | .ok session =>
          if session.paused then still plan (.Waits session)
          else pump graph config occurrence session plan
  | .pause => still plan (.Waits { session with paused := true })
  | .resume =>
      if session.paused then pump graph config occurrence { session with paused := false } plan
      else still plan (.Waits session)
  | .cancel => still plan (.Ends (.Cancelled session.checkpoint))

/-- The loop of `serve` over the commands that it takes. -/
def serveLoop : Session C → List (Message C) → Option (Served C)
  | session, [] => some (.Waits session)
  | session, message :: rest =>
      match obey graph config occurrence session message.plan message.command with
      | none => none
      | some (.Ends ended) => if rest.isEmpty then some (.Ends ended) else none
      | some (.Waits next) => serveLoop next rest

/-- `Session::serve`: `first` holds the schedules of the run that it starts with, if with one. -/
def serve (session : Session C) (start : Start) (first : List (Schedule C))
    (messages : List (Message C)) : Option (Served C) :=
  match start with
  | .OnInput =>
      if first.isEmpty then serveLoop graph config occurrence session messages else none
  | .Now =>
      match pump graph config occurrence session first with
      | none => none
      | some (.Ends ended) => if messages.isEmpty then some (.Ends ended) else none
      | some (.Waits next) => serveLoop graph config occurrence next messages

end Serve

end Session

/-! What a session was told, and where. -/

/-- A command that a session took: between runs, or during a superstep, which ended the run when it
left no node to run. -/
inductive Heard (C : Type) [Conversation C] where
  | between (command : Command C)
  | during (command : Command C) (last : Bool)

namespace Heard

def command : Heard C → Command C
  | .between command => command
  | .during command _ => command

/-- The command, where the session obeys it: a resume taken during a superstep is ignored, and a
pause taken during the superstep that ends the run goes with the run. -/
def kept : Heard C → Option (Command C)
  | .between command => some command
  | .during .pause false => some .pause
  | .during _ _ => none

end Heard

/-- Whether the last pause or resume of some commands is a pause, or `before` when there is none. -/
def lastIsPause (before : Bool) (commands : List (Command C)) : Bool :=
  commands.foldl (fun paused command =>
    match command with
    | .pause => true
    | .resume => false
    | .input _ _ | .cancel => paused) before

/-- The commands of a superstep, in arrival order. -/
def Schedule.commands (schedule : Schedule C) : List (Command C) :=
  schedule.events.filterMap Event.command? ++ schedule.drained

/-- The superstep was settled and left no node to run. -/
def Stepped.last (stepped : Stepped C) : Bool := (stepped.settled.bind (·.ending)).isSome

section HeardOf

variable [DecidableEq C] (graph : Graph C) (config : Config C)

/-- What a run was told. -/
def heardIn (ctx : Context) : Standing C → List (Schedule C) → List (Heard C)
  | _, [] => []
  | here, schedule :: rest =>
      match superstep graph config ctx here schedule with
      | none => []
      | some stepped =>
          schedule.commands.map (Heard.during · stepped.last) ++
            match stepped.ending with
            | .ends _ => []
            | .goes next => heardIn ctx next rest

variable (occurrence : OccurrenceKey)

namespace Session

def heardOnce (session : Session C) (plan : List (Schedule C)) : List (Heard C) :=
  match launch graph config occurrence session.pending session.state session.cursor with
  | .error _ => []
  | .ok here => heardIn graph config (runContext graph occurrence) here plan

/-- What a session is told from a command on, until it waits for the next one. -/
def heardObeying (session : Session C) (plan : List (Schedule C)) (command : Command C) :
    List (Heard C) :=
  .between command ::
    match command with
    | .input key input =>
        match session.applyInput key input with
        | .error _ => []
        | .ok session =>
            if session.paused then [] else heardOnce graph config occurrence session plan
    | .resume =>
        if session.paused then
          heardOnce graph config occurrence { session with paused := false } plan
        else []
    | .pause | .cancel => []

def heardLoop : Session C → List (Message C) → List (Heard C)
  | _, [] => []
  | session, message :: rest =>
      heardObeying graph config occurrence session message.plan message.command ++
        match obey graph config occurrence session message.plan message.command with
        | some (.Waits next) => heardLoop next rest
        | _ => []

/-- What a served session was told. -/
def heard (session : Session C) (start : Start) (first : List (Schedule C))
    (messages : List (Message C)) : List (Heard C) :=
  match start with
  | .OnInput => heardLoop graph config occurrence session messages
  | .Now =>
      heardOnce graph config occurrence session first ++
        match pump graph config occurrence session first with
        | some (.Waits next) => heardLoop graph config occurrence next messages
        | _ => []

end Session

end HeardOf

/-! Pauses and resumes. -/

section Pauses

theorem lastIsPause_append (before : Bool) (first second : List (Command C)) :
    lastIsPause before (first ++ second) = lastIsPause (lastIsPause before first) second :=
  List.foldl_append ..

theorem lastIsPause_pauses {before : Bool} {commands : List (Command C)}
    (hpauses : ∀ command ∈ commands, command = .pause) (hsome : commands ≠ [] ∨ before = true) :
    lastIsPause before commands = true := by
  induction commands generalizing before with
  | nil =>
    rcases hsome with habsurd | hbefore
    · exact absurd rfl habsurd
    · exact hbefore
  | cons command rest ih =>
    obtain rfl := hpauses command List.mem_cons_self
    exact ih (fun other hother => hpauses other (List.mem_cons_of_mem _ hother)) (.inr rfl)

/-- The superstep that ends the run keeps nothing of what it was told. -/
private theorem kept_last (commands : List (Command C)) :
    (commands.map (Heard.during · true)).filterMap Heard.kept = [] := by
  rw [List.filterMap_eq_nil_iff]
  intro heard hmem
  obtain ⟨command, -, rfl⟩ := List.mem_map.mp hmem
  cases command <;> rfl

private theorem mem_kept {commands : List (Command C)} {last : Bool} {command : Command C} :
    command ∈ (commands.map (Heard.during · last)).filterMap Heard.kept ↔
      last = false ∧ command = .pause ∧ .pause ∈ commands := by
  rw [List.mem_filterMap]
  constructor
  · rintro ⟨heard, hmem, hkept⟩
    obtain ⟨told, htold, rfl⟩ := List.mem_map.mp hmem
    cases last with
    | true => cases told <;> cases hkept
    | false =>
      cases told <;> cases hkept
      exact ⟨rfl, rfl, htold⟩
  · rintro ⟨rfl, rfl, hpause⟩
    exact ⟨.during .pause false, List.mem_map.mpr ⟨.pause, hpause, rfl⟩, rfl⟩

private theorem take_pause {driving : Driving C} {command : Command C} :
    (driving.take command).pause = true ↔ driving.pause = true ∨ command = .pause := by
  cases command <;> simp [Driving.take]

/-- The drain that meets no cancel notes every pause. -/
private theorem drained_pause {driving drained : Driving C} {commands : List (Command C)}
    (hdrained : drainAfterStep driving commands = (drained, false)) :
    drained.pause = true ↔ driving.pause = true ∨ .pause ∈ commands := by
  induction commands generalizing driving with
  | nil =>
    cases hdrained
    simp
  | cons command rest ih =>
    have htaken : drainAfterStep (driving.take command) rest = (drained, false) := by
      cases command with
      | cancel => cases hdrained
      | input key input => exact hdrained
      | pause => exact hdrained
      | resume => exact hdrained
    rw [ih htaken, take_pause, List.mem_cons, or_assoc]
    exact or_congr_right (or_congr_left eq_comm)

variable [DecidableEq C] {graph : Graph C} {config : Config C} {state : State C} {ctx : Context}
  {present : List NodeId}

/-- So does the superstep that runs to its end. -/
private theorem drive_pause {driving stopped : Driving C} {events : List (Event C)}
    {results : Results C}
    (hdrove : drive graph config state ctx present driving events =
      some (stopped, .done results)) :
    stopped.pause = true ↔
      driving.pause = true ∨ .pause ∈ events.filterMap Event.command? := by
  induction events generalizing driving with
  | nil =>
    rw [drive] at hdrove
    split at hdrove
    · cases hdrove
      simp
    · cases hdrove
  | cons event rest ih =>
    rcases event with ⟨position, path, act⟩ | command
    · rw [drive] at hdrove
      split at hdrove
      · cases hdrove
      · rename_i next hadvanced
        obtain ⟨id, task, node, progress, -, -, -, -, rfl⟩ := advance_eq_some hadvanced
        have honward := ih hdrove
        exact honward
    · have htaken : drive graph config state ctx present (driving.take command) rest =
          some (stopped, .done results) := by
        cases command with
        | cancel =>
          rw [drive] at hdrove
          split at hdrove <;> cases hdrove
        | input key input => exact hdrove
        | pause => exact hdrove
        | resume => exact hdrove
      rw [ih htaken, take_pause, or_assoc]
      refine or_congr_right ?_
      have hcommands : (Event.command command :: rest).filterMap Event.command? =
          command :: rest.filterMap Event.command? := rfl
      rw [hcommands, List.mem_cons]
      exact or_congr_left eq_comm

variable {here : Standing C} {schedule : Schedule C} {stepped : Stepped C}

/-- A settled superstep was asked to pause when a pause is among its commands. -/
theorem superstep_pause (htaken : superstep graph config ctx here schedule = some stepped)
    (hsettled : stepped.settled.isSome = true) :
    stepped.driven.pause = true ↔ .pause ∈ schedule.commands := by
  rw [superstep] at htaken
  split at htaken
  · cases htaken
  · cases htaken
    cases hsettled
  · rename_i driven results hdrove
    have hdriven : driven.pause = true ↔ .pause ∈ schedule.events.filterMap Event.command? := by
      have hpause := drive_pause hdrove
      simpa using hpause
    split at htaken
    · cases htaken
      cases hsettled
    · rename_i drained hdrained
      have hpause : drained.pause = true ↔ .pause ∈ schedule.commands := by
        rw [drained_pause hdrained, hdriven, Schedule.commands, List.mem_append]
      split at htaken <;> cases htaken
      · cases hsettled
      · exact hpause

/-- A run that finishes keeps nothing of what it was told; one that is paused keeps pauses. -/
theorem heardIn_kept {plan : List (Schedule C)} {outcome : Outcome C}
    (hrun : runLoop graph config ctx here plan = some outcome) :
    (∀ state ending, outcome = .Finished state ending →
      (heardIn graph config ctx here plan).filterMap Heard.kept = []) ∧
    (∀ given, outcome = .Paused given →
      (heardIn graph config ctx here plan).filterMap Heard.kept ≠ [] ∧
        ∀ command ∈ (heardIn graph config ctx here plan).filterMap Heard.kept,
          command = .pause) := by
  induction plan generalizing here with
  | nil => cases hrun
  | cons schedule rest ih =>
    rw [runLoop] at hrun
    split at hrun
    · cases hrun
    · rename_i stepped htaken
      rw [heardIn, htaken]
      dsimp only
      rcases superstep_cases htaken with ⟨-, -, hending⟩ | ⟨_, _, _, -, -, -, hending⟩ |
        ⟨results, settled, store, -, hsettled, -, hending⟩
      · rw [hending] at hrun
        have hstop : outcome = cancelled graph ctx stepped.driven.store here.state
            (inputUpdates stepped.driven.held) here.active here.deferred := by
          dsimp only at hrun
          split at hrun
          · exact (Option.some.inj hrun).symm
          · cases hrun
        rw [cancelled] at hstop
        constructor
        · rintro state ending rfl
          split at hstop <;> cases hstop
        · rintro given rfl
          split at hstop <;> cases hstop
      · rw [hending] at hrun
        dsimp only [fail] at hrun
        split at hrun
        · cases hrun
          exact ⟨fun _ _ hfinished => (by cases hfinished), fun _ hpaused => (by cases hpaused)⟩
        · cases hrun
      · have hpause := superstep_pause htaken (by rw [hsettled]; rfl)
        have hlast : stepped.last = settled.ending.isSome := by
          rw [Stepped.last, hsettled]
          rfl
        rw [hending, proceed] at hrun ⊢
        cases hend : settled.ending with
        | some label =>
          rw [hend] at hlast
          simp only [hend] at hrun ⊢
          split at hrun
          · cases hrun
            refine ⟨fun _ _ _ => ?_, fun _ hpaused => (by cases hpaused)⟩
            rw [hlast, List.append_nil]
            exact kept_last _
          · cases hrun
        | none =>
          rw [hend] at hlast
          simp only [hend] at hrun ⊢
          by_cases hasked : stepped.driven.pause = true
          · simp only [hasked, if_true] at hrun ⊢
            split at hrun
            · cases hrun
              refine ⟨fun _ _ hfinished => (by cases hfinished), fun _ _ => ?_⟩
              rw [hlast, List.append_nil]
              constructor
              · exact List.ne_nil_of_mem (mem_kept.mpr ⟨rfl, rfl, hpause.mp hasked⟩)
              · exact fun command hmem => (mem_kept.mp hmem).2.1
            · cases hrun
          · have hnone : (schedule.commands.map (Heard.during · stepped.last)).filterMap
                Heard.kept = [] := by
              rw [List.eq_nil_iff_forall_not_mem]
              exact fun command hmem => hasked (hpause.mpr (mem_kept.mp hmem).2.2)
            simp only [hasked, Bool.false_eq_true, if_false] at hrun ⊢
            rw [List.filterMap_append, hnone, List.nil_append]
            exact ih hrun

end Pauses

namespace Session

variable [DecidableEq C] {graph : Graph C} {config : Config C} {occurrence : OccurrenceKey}
  {session next last : Session C} {plan : List (Schedule C)}

/-- A run that does not get under way fails. -/
private theorem launch_fails {pending : PendingWrites C} {state : State C} {cursor : Option Cursor}
    {outcome : Outcome C}
    (hlaunch : launch graph config occurrence pending state cursor = .error outcome) :
    ∃ error given, outcome = .Failed error given := by
  rw [launch] at hlaunch
  split at hlaunch
  · cases hlaunch
    exact ⟨_, _, rfl⟩
  · rw [enter] at hlaunch
    split at hlaunch
    · cases hlaunch
      exact ⟨_, _, rfl⟩
    · split at hlaunch
      · cases hlaunch
        exact ⟨_, _, rfl⟩
      · cases hlaunch

/-- After a run the session is paused exactly when the run kept a pause. -/
theorem pump_paused (hpump : pump graph config occurrence session plan = some (.Waits next)) :
    next.paused =
      lastIsPause false
        ((heardOnce graph config occurrence session plan).filterMap Heard.kept) := by
  rw [pump, Option.map_eq_some_iff] at hpump
  obtain ⟨⟨absorbed, outcome⟩, honce, hwaits⟩ := hpump
  rw [runOnce, Option.map_eq_some_iff] at honce
  obtain ⟨ran, hran, hpair⟩ := honce
  cases hpair
  rw [run] at hran
  rw [heardOnce]
  cases hlaunch : launch graph config occurrence session.pending session.state session.cursor with
  | error failed =>
    rw [hlaunch] at hran
    obtain ⟨error, given, rfl⟩ := launch_fails hlaunch
    dsimp only at hran
    split at hran <;> cases hran
    cases hwaits
  | ok here =>
    rw [hlaunch] at hran
    obtain ⟨hfinished, hpaused⟩ := heardIn_kept hran
    cases outcome with
    | Finished state ending =>
      cases hwaits
      dsimp only
      rw [hfinished state ending rfl]
      rfl
    | Paused given =>
      cases hwaits
      obtain ⟨hsome, hpauses⟩ := hpaused given rfl
      exact (lastIsPause_pauses hpauses (.inl hsome)).symm
    | Cancelled given => cases hwaits
    | Failed error given => cases hwaits

omit [DecidableEq C] in
private theorem still_waits {served : Served C} (hstill : still plan served = some (.Waits next)) :
    served = .Waits next := by
  rw [still] at hstill
  split at hstill
  · exact Option.some.inj hstill
  · cases hstill

omit [DecidableEq C] in
private theorem applyInput_paused {key : Key} {input : Conversation.UserInput C}
    (happlied : session.applyInput key input = .ok next) : next.paused = session.paused := by
  rw [applyInput] at happlied
  split at happlied <;> cases happlied
  rfl

/-- A command leaves the session paused exactly when the last request kept is a pause. -/
theorem obey_paused {command : Command C}
    (hobey : obey graph config occurrence session plan command = some (.Waits next)) :
    next.paused = lastIsPause session.paused
      ((heardObeying graph config occurrence session plan command).filterMap Heard.kept) := by
  cases command with
  | input key input =>
    rw [obey] at hobey
    rw [heardObeying]
    cases happlied : session.applyInput key input with
    | error error =>
      rw [happlied] at hobey
      cases still_waits hobey
    | ok given =>
      have hsame := applyInput_paused happlied
      rw [happlied] at hobey
      dsimp only at hobey ⊢
      by_cases hpaused : given.paused = true
      · rw [if_pos hpaused] at hobey ⊢
        cases still_waits hobey
        exact hsame
      · rw [if_neg hpaused] at hobey ⊢
        have hfresh : session.paused = false := by
          rw [← hsame]
          simpa using hpaused
        rw [pump_paused hobey, hfresh]
        rfl
  | pause =>
    cases still_waits hobey
    rfl
  | resume =>
    rw [obey] at hobey
    rw [heardObeying]
    by_cases hpaused : session.paused = true
    · rw [if_pos hpaused] at hobey ⊢
      rw [pump_paused hobey]
      rfl
    · rw [if_neg hpaused] at hobey ⊢
      cases still_waits hobey
      simpa [lastIsPause, Heard.kept] using hpaused
  | cancel => cases still_waits hobey

theorem serveLoop_paused {messages : List (Message C)}
    (hserved : serveLoop graph config occurrence session messages = some (.Waits last)) :
    last.paused = lastIsPause session.paused
      ((heardLoop graph config occurrence session messages).filterMap Heard.kept) := by
  induction messages generalizing session with
  | nil =>
    cases hserved
    rfl
  | cons message rest ih =>
    rw [serveLoop] at hserved
    rw [heardLoop]
    cases hobey : obey graph config occurrence session message.plan message.command with
    | none =>
      rw [hobey] at hserved
      cases hserved
    | some served =>
      rw [hobey] at hserved
      cases served with
      | Ends ended =>
        dsimp only at hserved
        split at hserved <;> cases hserved
      | Waits next =>
        dsimp only at hserved ⊢
        rw [List.filterMap_append, lastIsPause_append, ← obey_paused hobey]
        exact ih hserved

/-- A session that is made, or made again of a checkpoint, is not paused. -/
theorem not_paused_at_first :
    (∀ state, new graph config state = .ok session → session.paused = false) ∧
      ∀ given, resume graph config given = .ok session → session.paused = false := by
  constructor
  · intro state hnew
    rw [new] at hnew
    split at hnew <;> cases hnew
    rfl
  · intro given hresume
    rw [resume] at hresume
    split at hresume
    · cases hresume
    · split at hresume <;> cases hresume
      rfl

/-- A session that waits is paused exactly when the last pause or resume that it kept is a pause,
from where it stood when serving began: one taken between runs is kept, and so is a pause taken by a
superstep that leaves nodes to run.  While it is paused an input starts no run; while it is not, an
input does.  A session that is made, or made again of a checkpoint, is not paused. -/
theorem session_paused (graph : Graph C) (config : Config C) (occurrence : OccurrenceKey)
    (session last : Session C) (start : Start) (first : List (Schedule C))
    (messages : List (Message C))
    (hserved : serve graph config occurrence session start first messages = some (.Waits last)) :
    last.paused = lastIsPause (start = .OnInput && session.paused)
      ((heard graph config occurrence session start first messages).filterMap Heard.kept) ∧
    (∀ key input given, last.applyInput key input = .ok given →
      (last.paused = true → ∀ plan,
        obey graph config occurrence last plan (.input key input) = still plan (.Waits given)) ∧
      (last.paused = false → ∀ plan,
        obey graph config occurrence last plan (.input key input) =
          pump graph config occurrence given plan)) ∧
    (∀ made state, new graph config state = .ok made → made.paused = false) ∧
    ∀ made given, resume graph config given = .ok made → made.paused = false := by
  refine ⟨?_, ?_, fun made state => not_paused_at_first.1 state,
    fun made given => not_paused_at_first.2 given⟩
  · cases start with
    | OnInput =>
      simp only [serve] at hserved
      split at hserved
      · rw [serveLoop_paused hserved, heard]
        rfl
      · cases hserved
    | Now =>
      simp only [serve] at hserved
      cases hpump : pump graph config occurrence session first with
      | none =>
        rw [hpump] at hserved
        cases hserved
      | some served =>
        rw [hpump] at hserved
        cases served with
        | Ends ended =>
          dsimp only at hserved
          split at hserved <;> cases hserved
        | Waits next =>
          dsimp only at hserved
          simp only [heard, hpump]
          rw [List.filterMap_append, lastIsPause_append, serveLoop_paused hserved,
            pump_paused hpump]
          rfl
  · intro key input given happlied
    have hsame := applyInput_paused happlied
    constructor
    · intro hpaused plan
      rw [obey, happlied]
      dsimp only
      rw [hsame, if_pos hpaused]
    · intro hgoing plan
      rw [obey, happlied]
      dsimp only
      rw [hsame, hgoing, if_neg Bool.false_ne_true]

end Session

/-- The session that waits, when serving has not ended. -/
def Served.waiting? : Served C → Option (Session C)
  | .Waits session => some session
  | .Ends _ => none

theorem Served.of_waiting {found : Option (Served C)} {session : Session C}
    (hwaiting : found.bind Served.waiting? = some session) : found = some (.Waits session) := by
  obtain ⟨served, rfl, hserved⟩ := Option.bind_eq_some_iff.mp hwaiting
  cases served with
  | Waits waiting =>
    cases hserved
    rfl
  | Ends ended => cases hserved

namespace Relay

/-- A node and another one after it. -/
def builder : GraphBuilder Unit where
  schema := Fork.schema
  privateKeys := []
  entry := some "first"
  nodes := [("first", ⟨Fork.host, false⟩), ("second", ⟨Fork.host, false⟩)]
  edges := [("first", Fork.always [.Node "second"]), ("second", Fork.always [.End "done"])]
  inputs := []
  outputs := []

def graph : Graph Unit := builder.build.toOption.get (by decide +kernel)

def session : Session Unit := ⟨Fork.state, none, PendingWrites.empty, false⟩

/-- A superstep that finds some commands in the channel when its node is done. -/
def told (commands : List (Command Unit)) : Schedule Unit :=
  { Fork.alone [] with drained := commands }

def input : Command Unit := .input "chat" "hello"

/-- Whether the session waits paused, after some commands. -/
def paused (messages : List (Message Unit)) : Option Bool :=
  ((session.serve graph Fork.config [] .OnInput [] messages).bind Served.waiting?).map
    Session.paused

def commands (messages : List (Message Unit)) : List (Command Unit) :=
  (session.heard graph Fork.config [] .OnInput [] messages).map Heard.command

end Relay

/-- The same input and pause leave the session paused when the pause comes after the run, and not
when it comes during the last superstep; and a resume that comes after a pause during one superstep
leaves it paused. -/
theorem pause_depends_on_timing :
    (Relay.commands [⟨Relay.input, [Relay.told [], Relay.told [.pause]]⟩] = [Relay.input, .pause] ∧
      Relay.paused [⟨Relay.input, [Relay.told [], Relay.told [.pause]]⟩] = some false) ∧
    (Relay.commands [⟨Relay.input, [Relay.told [], Relay.told []]⟩, ⟨.pause, []⟩] =
        [Relay.input, .pause] ∧
      Relay.paused [⟨Relay.input, [Relay.told [], Relay.told []]⟩, ⟨.pause, []⟩] = some true) ∧
    (Relay.commands [⟨Relay.input, [Relay.told [.pause, .resume]]⟩] =
        [Relay.input, .pause, .resume] ∧
      Relay.paused [⟨Relay.input, [Relay.told [.pause, .resume]]⟩] = some true) := by
  refine ⟨⟨rfl, by decide +kernel⟩, ⟨rfl, by decide +kernel⟩, ⟨rfl, by decide +kernel⟩⟩

/-- A session that takes a pause after its run. -/
theorem session_paused_relay :
    ∃ last, Relay.session.serve Relay.graph Fork.config [] .OnInput []
        [⟨Relay.input, [Relay.told [], Relay.told []]⟩, ⟨.pause, []⟩] = some (.Waits last) ∧
      last.paused = lastIsPause false ((Relay.session.heard Relay.graph Fork.config [] .OnInput []
        [⟨Relay.input, [Relay.told [], Relay.told []]⟩, ⟨.pause, []⟩]).filterMap Heard.kept) := by
  have hserved : Relay.session.serve Relay.graph Fork.config [] .OnInput []
      [⟨Relay.input, [Relay.told [], Relay.told []]⟩, ⟨.pause, []⟩] =
        some (.Waits (((Relay.session.serve Relay.graph Fork.config [] .OnInput []
          [⟨Relay.input, [Relay.told [], Relay.told []]⟩, ⟨.pause, []⟩]).bind
            Served.waiting?).get (by decide +kernel))) :=
    Served.of_waiting (Option.some_get _).symm
  exact ⟨_, hserved, (Session.session_paused _ _ _ _ _ _ _ _ hserved).1⟩

end LlmGraph.Superstep

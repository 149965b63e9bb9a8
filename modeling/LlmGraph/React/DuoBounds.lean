/- digest: What holds of every run of a generator-critic: the bounds of its call, the agreement of its
   routing with the one on entry, its outputs, and the number of its supersteps. -/

import LlmGraph.React.DuoRuns
import LlmGraph.React.LoopBounds

set_option autoImplicit false
set_option relaxedAutoImplicit false

namespace LlmGraph.React

open Lib (foldlM_cons_ok foldlM_single_ok foldlM_append_ok)
open Superstep (State Config Value GraphError Key Update)

variable {C : Type} [Messages C]

/-- Every run of a loop that opens a turn has at most so many supersteps. -/
def ReactLoop.Lasts (loop : ReactLoop) (config : Config C) (width : Nat) : Prop :=
  ∀ (state : State C) (c : C) (id : TurnId) (moved : Option Position) (trace : List Spot)
    (last : ReactLoop.Standing C), state.conversation loop.key = .ok c →
    loop.target state c = .ok (.Open id moved) →
    loop.Runs config ⟨.llm, state⟩ trace last → trace.length ≤ width

namespace GeneratorCritic

variable {graph : GeneratorCritic C} {config : Config C} {caps : Caps} {first : CallTurns}

/-- What a run finds on entry: turns that a run under the same bounds can have left, none of which the
next reply goes on in. -/
structure Begins (graph : GeneratorCritic C) (config : Config C) (caps : Caps) (state : State C)
    (first : CallTurns) : Prop where
  reads : graph.router.Reads config caps
  legal : caps.Legal (CallTurns.kinds first)
  lists : ∃ c, graph.duo.Lists state c first ∧ graph.loop.Quiet state c

/-- What a run keeps: the turns of the call are those found on entry and the ones written since, of
which some are answers; the critic has been asked once for each of its messages. -/
structure Keeps (graph : GeneratorCritic C) (caps : Caps) (first : CallTurns) (trace : List Stage)
    (made : Nat) (state : State C) (c : C) (turns : CallTurns) : Prop where
  lists : graph.duo.Lists state c turns
  legal : caps.Legal (CallTurns.kinds turns)
  grows : CallTurns.kinds first <+: CallTurns.kinds turns
  answers : (CallTurns.kinds turns).count .Generation =
    (CallTurns.kinds first).count .Generation + made
  judged : trace.count .critique + (CallTurns.kinds first).count .Critique ≤
    (CallTurns.kinds turns).count .Critique +
      if (CallTurns.kinds turns).getLast? = some .Acceptance then 1 else 0

/-- A run has at most the supersteps of its answers and two more for each, short of some. -/
def Short (graph : GeneratorCritic C) (config : Config C) (trace : List Stage) (made left : Nat) :
    Prop :=
  ∀ width, graph.loop.Lasts config width → trace.length + left ≤ made * (width + 2) + 2

/-- How far a run is. -/
inductive Conducted (graph : GeneratorCritic C) (config : Config C) (caps : Caps) (first : CallTurns)
    (trace : List Stage) : Standing C → Prop
  | generates {state : State C} {c : C} {turns : CallTurns} {made : Nat}
      (hkeeps : Keeps graph caps first trace made state c turns)
      (hasked : caps.goes (CallTurns.kinds turns) = .Generate) (hquiet : graph.loop.Quiet state c)
      (hshort : Short graph config trace made 0) :
      Conducted graph config caps first trace ⟨.react .llm, state⟩
  | writes {spot : Spot} {state opened : State C} {c before : C} {turns : CallTurns} {turn : Turn}
      {made : Nat} {id : TurnId} {moved : Option Position} {segment : List Spot}
      (hkeeps : Keeps graph caps first trace made state c (turns ++ [(turn, .Generation)]))
      (hon : graph.loop.OnTurn state c turn) (halong : graph.loop.Along C turn spot)
      (hgoing : spot ≠ .after) (hconversation : opened.conversation graph.loop.key = .ok before)
      (hopens : graph.loop.target opened before = .ok (.Open id moved))
      (hruns : graph.loop.Runs config ⟨.llm, opened⟩ segment ⟨spot, state⟩)
      (hshort : ∀ width, graph.loop.Lasts config width →
        trace.length + (width + 2) ≤ made * (width + 2) + 2 + segment.length) :
      Conducted graph config caps first trace ⟨.react spot, state⟩
  | checks {state : State C} {c : C} {turns : CallTurns} {turn : Turn} {made : Nat}
      (hkeeps : Keeps graph caps first trace made state c (turns ++ [(turn, .Generation)]))
      (hrested : graph.loop.Rested c) (hshort : Short graph config trace made 2) :
      Conducted graph config caps first trace ⟨.react .after, state⟩
  | judges {state : State C} {c : C} {turns : CallTurns} {turn : Turn} {made : Nat}
      (hkeeps : Keeps graph caps first trace made state c (turns ++ [(turn, .Generation)]))
      (hbelow : (CallTurns.kinds (turns ++ [(turn, .Generation)])).count .Critique < caps.budget)
      (hfull : graph.duo.empty turn = false) (hrested : graph.loop.Rested c)
      (hshort : Short graph config trace made 1) :
      Conducted graph config caps first trace ⟨.critique, state⟩
  | finishes {state : State C} {c : C} {turns : CallTurns} {made : Nat}
      (hkeeps : Keeps graph caps first trace made state c turns)
      (hshort : Short graph config trace made 0) :
      Conducted graph config caps first trace ⟨.finish, state⟩
  | ends {state : State C} {c : C} {turns : CallTurns} {made : Nat} {validated : Bool}
      (hkeeps : Keeps graph caps first trace made state c turns)
      (hanswer : state.str "answer" = .ok (graph.finish.answerOf turns))
      (hgenerations : state.int "nb_generations" = .ok (heldInt turns.generations))
      (haccepted : validated = ((CallTurns.kinds turns).getLast? == some .Acceptance))
      (hshort : ∀ width, graph.loop.Lasts config width → trace.length ≤ made * (width + 2) + 3) :
      Conducted graph config caps first trace ⟨.ended validated, state⟩

section Steps

variable {trace : List Stage} {made : Nat} {state next : State C} {c c' : C} {turns : CallTurns}
  {turn message : Turn} {kind : TurnKind} {updates : List (Update C)}

/-- After a message of the critic the generator answers again or the run finishes. -/
theorem goes_message {kinds : List TurnKind} (hlegal : caps.Legal (kinds ++ [kind]))
    (hmessage : kind ≠ .Generation) :
    caps.goes (kinds ++ [kind]) = .Generate ∨ caps.goes (kinds ++ [kind]) = .Finish := by
  cases kind with
  | Generation => exact absurd rfl hmessage
  | Critique =>
    have hgoes : caps.goes (kinds ++ [.Critique]) = caps.rejection (kinds ++ [.Critique]) := by
      simp [Caps.goes]
    rw [hgoes]
    unfold Caps.rejection
    split
    · exact .inl rfl
    · exact .inr rfl
  | Revision => exact .inl (hlegal.goes_revision (by simp))
  | Acceptance =>
    refine .inr ?_
    simp [Caps.goes]

theorem Conducted.landed {kinds : List TurnKind} (hkeeps : Keeps graph caps first trace made state c turns)
    (hkinds : CallTurns.kinds turns = kinds ++ [kind]) (hmessage : kind ≠ .Generation)
    (hquiet : graph.loop.Quiet state c) (hshort : Short graph config trace made 0) :
    Conducted graph config caps first trace ⟨(caps.goes (CallTurns.kinds turns)).stage, state⟩ := by
  rcases goes_message (hkinds ▸ hkeeps.legal) hmessage with hgoes | hgoes
  · have hasked : caps.goes (CallTurns.kinds turns) = .Generate := hkinds ▸ hgoes
    rw [hasked]
    exact .generates hkeeps hasked hquiet hshort
  · have hdone : caps.goes (CallTurns.kinds turns) = .Finish := hkinds ▸ hgoes
    rw [hdone]
    exact .finishes hkeeps hshort

/-- Where a run begins. -/
theorem Begins.conducted (hlawful : Messages.Lawful C) (hbegins : Begins graph config caps state first) :
    Conducted graph config caps first [] ⟨(caps.goes (CallTurns.kinds first)).stage, state⟩ := by
  obtain ⟨c, hlists, hquiet⟩ := hbegins.lists
  have hkeeps : Keeps graph caps first [] 0 state c first :=
    ⟨hlists, hbegins.legal, List.prefix_rfl, rfl, by simp⟩
  rcases List.eq_nil_or_concat first with rfl | ⟨front, ⟨turn, kind⟩, rfl⟩
  · exact .generates hkeeps rfl hquiet fun width _ => by simp
  · rw [List.concat_eq_append] at hkeeps hlists ⊢
    have hkinds := CallTurns.kinds_snoc front turn kind
    by_cases hmessage : kind = .Generation
    · subst hmessage
      have hgoes : caps.goes (CallTurns.kinds (front ++ [(turn, .Generation)])) = .Check := by
        rw [hkinds]
        simp [Caps.goes]
      rw [hgoes]
      exact .checks hkeeps (hquiet.rested hlawful) fun width _ => by simp
    · exact .landed hkeeps hkinds hmessage hquiet fun width _ => by simp

/-- A message that is recorded is one turn more of the call. -/
theorem Keeps.adds (hkeeps : Keeps graph caps first trace made state c (turns ++ [(turn, .Generation)]))
    {stage : Stage} (hlists : graph.duo.Lists next c'
      (turns ++ [(turn, .Generation)] ++ [(message, kind)]))
    (hlegal : caps.Legal (CallTurns.kinds (turns ++ [(turn, .Generation)] ++ [(message, kind)])))
    (hmessage : kind ≠ .Generation) (hjudges : stage = .critique → kind ≠ .Revision) :
    Keeps graph caps first (trace ++ [stage]) made next c'
      (turns ++ [(turn, .Generation)] ++ [(message, kind)]) := by
  have hkinds := CallTurns.kinds_snoc (turns ++ [(turn, .Generation)]) message kind
  have hlast : (CallTurns.kinds (turns ++ [(turn, .Generation)])).getLast? = some .Generation := by
    rw [CallTurns.kinds_snoc, List.getLast?_concat]
  have hjudged := hkeeps.judged
  rw [hlast, if_neg (by simp)] at hjudged
  refine ⟨hlists, hlegal, ?_, ?_, ?_⟩
  · rw [hkinds]
    exact hkeeps.grows.trans (List.prefix_append _ _)
  · rw [hkinds, List.count_append, hkeeps.answers]
    simp [hmessage]
  · rw [hkinds, List.count_append, List.count_append, List.getLast?_concat]
    have hstage : [stage].count .critique ≤ 1 := List.count_le_length
    cases kind with
    | Generation => exact absurd rfl hmessage
    | Critique => simp; omega
    | Acceptance => simp; omega
    | Revision =>
      have hother : [stage].count .critique = 0 := by
        rw [List.count_eq_zero]
        intro hmem
        exact hjudges (List.mem_singleton.mp hmem).symm rfl
      simp; omega

/-- A superstep of the generator's loop leaves the run in the loop, or at the check of a finished
answer. -/
theorem Conducted.arrives {spot : Spot} {opened : State C} {before : C} {id : TurnId}
    {moved : Option Position} {segment : List Spot}
    (hkeeps : Keeps graph caps first trace made state c (turns ++ [(turn, .Generation)]))
    (hon : graph.loop.OnTurn state c turn) (halong : graph.loop.Along C turn spot)
    (hconversation : opened.conversation graph.loop.key = .ok before)
    (hopens : graph.loop.target opened before = .ok (.Open id moved))
    (hruns : graph.loop.Runs config ⟨.llm, opened⟩ segment ⟨spot, state⟩)
    (hshort : ∀ width, graph.loop.Lasts config width →
      trace.length + (width + 2) ≤ made * (width + 2) + 2 + segment.length) :
    Conducted graph config caps first trace ⟨.react spot, state⟩ := by
  by_cases hgoing : spot = .after
  · subst hgoing
    cases halong with
    | after hfinished =>
      refine .checks hkeeps (fun _ found hfound hawaits => ?_) fun width hwidth => ?_
      · cases hfound.symm.trans hon.last
        rw [hfinished] at hawaits
        cases hawaits
      · have hlength := hwidth _ _ _ _ _ _ hconversation hopens hruns
        have htotal := hshort width hwidth
        omega
  · exact .writes hkeeps hon halong hgoing hconversation hopens hruns hshort

/-- A reply that opens a turn is one answer more. -/
theorem Conducted.opens (hlawful : Messages.Lawful C) (hcheck : graph.check = .ok ())
    (hkeeps : Keeps graph caps first trace made state c turns)
    (hasked : caps.goes (CallTurns.kinds turns) = .Generate) (hquiet : graph.loop.Quiet state c)
    (hshort : Short graph config trace made 0) {label : Spot} {next : ReactLoop.Standing C}
    (hstep : graph.loop.Superstep config ⟨.llm, state⟩ label next) :
    Conducted graph config caps first (trace ++ [.react label]) ⟨.react next.spot, next.state⟩ := by
  cases hstep with
  | @replies _ next step updates route hreply happlied hgoes =>
    obtain ⟨c', turn, hlists, hon, halong, id, moved, hopens⟩ :=
      reply_adds hlawful hcheck hkeeps.lists hquiet hreply happlied hgoes
    have hkinds := CallTurns.kinds_snoc turns turn .Generation
    have hlast : (CallTurns.kinds turns).getLast? ≠ some .Acceptance := by
      intro hlast
      unfold Caps.goes at hasked
      rw [hlast] at hasked
      cases hasked
    have hkeeps' : Keeps graph caps first (trace ++ [.react .llm]) (made + 1) next c'
        (turns ++ [(turn, .Generation)]) := by
      refine ⟨hlists, ?_, ?_, ?_, ?_⟩
      · rw [hkinds]
        exact .answers hkeeps.legal hasked
      · rw [hkinds]
        exact hkeeps.grows.trans (List.prefix_append _ _)
      · rw [hkinds, List.count_append, hkeeps.answers]
        simp [Nat.add_assoc]
      · have hjudged := hkeeps.judged
        rw [if_neg hlast] at hjudged
        rw [hkinds, List.count_append, List.count_append]
        simpa using hjudged
    have hruns : graph.loop.Runs config ⟨.llm, state⟩ [.llm] ⟨route.spot, next⟩ :=
      .single (.replies hreply happlied hgoes)
    refine .arrives hkeeps' hon halong hkeeps.lists.conversation hopens hruns fun width hwidth => ?_
    have htotal := hshort width hwidth
    simp only [List.length_append, List.length_singleton, Nat.add_mul]
    omega

/-- A superstep of the loop after the first. -/
theorem Conducted.goes_on (hlawful : Messages.Lawful C) (hcheck : graph.check = .ok ()) {spot : Spot}
    {opened : State C} {before : C} {id : TurnId} {moved : Option Position} {segment : List Spot}
    (hkeeps : Keeps graph caps first trace made state c (turns ++ [(turn, .Generation)]))
    (hon : graph.loop.OnTurn state c turn) (halong : graph.loop.Along C turn spot)
    (hconversation : opened.conversation graph.loop.key = .ok before)
    (hopens : graph.loop.target opened before = .ok (.Open id moved))
    (hruns : graph.loop.Runs config ⟨.llm, opened⟩ segment ⟨spot, state⟩)
    (hshort : ∀ width, graph.loop.Lasts config width →
      trace.length + (width + 2) ≤ made * (width + 2) + 2 + segment.length) {label : Spot}
    {next : ReactLoop.Standing C} (hstep : graph.loop.Superstep config ⟨spot, state⟩ label next) :
    Conducted graph config caps first (trace ++ [.react label]) ⟨.react next.spot, next.state⟩ := by
  obtain ⟨-, -, hloop⟩ := check_ok hcheck
  obtain ⟨c', changed, hmoved⟩ :=
    ReactLoop.Superstep.moved hlawful (loop_wired hcheck) hloop hon halong hstep
  have hlists := Lists.moved hlawful hkeeps.lists hon hmoved
  have hkinds : CallTurns.kinds (swap turn changed turns ++ [(changed, .Generation)]) =
      CallTurns.kinds (turns ++ [(turn, .Generation)]) := by
    rw [← swap_last, swap_kinds]
  have hkeeps' : Keeps graph caps first (trace ++ [.react label]) made next.state c'
      (swap turn changed turns ++ [(changed, .Generation)]) := by
    refine ⟨hlists, hkinds ▸ hkeeps.legal, hkinds ▸ hkeeps.grows, hkinds ▸ hkeeps.answers, ?_⟩
    rw [hkinds, List.count_append]
    simpa using hkeeps.judged
  refine .arrives hkeeps' hmoved.on hmoved.along hconversation hopens (hruns.snoc hstep)
    fun width hwidth => ?_
  have htotal := hshort width hwidth
  simp only [List.length_append, List.length_singleton]
  omega

theorem Keeps.stays (hkeeps : Keeps graph caps first trace made state c turns) {stage : Stage}
    (hother : stage ≠ .critique) : Keeps graph caps first (trace ++ [stage]) made state c turns := by
  refine ⟨hkeeps.lists, hkeeps.legal, hkeeps.grows, hkeeps.answers, ?_⟩
  have hnone : [stage].count .critique = 0 :=
    List.count_eq_zero.mpr fun hmem => hother (List.mem_singleton.mp hmem).symm
  rw [List.count_append, hnone]
  exact hkeeps.judged

theorem Short.step {left : Nat} (hshort : Short graph config trace made (left + 1)) (stage : Stage) :
    Short graph config (trace ++ [stage]) made left := by
  intro width hwidth
  have htotal := hshort width hwidth
  rw [List.length_append, List.length_singleton]
  omega

theorem Short.mono {left less : Nat} (hshort : Short graph config trace made left)
    (hless : less ≤ left) : Short graph config trace made less := by
  intro width hwidth
  have htotal := hshort width hwidth
  omega

/-- The kinds of a call that a message of the critic may follow. -/
theorem legal_message (hlegal : caps.Legal (CallTurns.kinds (turns ++ [(turn, .Generation)])))
    (hallowed : (kind = .Critique ∨ kind = .Acceptance) ∧
        (CallTurns.kinds (turns ++ [(turn, .Generation)])).count .Critique < caps.budget ∨
      kind = .Revision ∧
        inARow (CallTurns.kinds (turns ++ [(turn, .Generation)])) < caps.revisions) :
    caps.Legal (CallTurns.kinds (turns ++ [(turn, .Generation)] ++ [(message, kind)])) := by
  rw [CallTurns.kinds_snoc] at hlegal hallowed
  rw [CallTurns.kinds_snoc, CallTurns.kinds_snoc]
  rcases hallowed with ⟨rfl | rfl, hbelow⟩ | ⟨rfl, hbelow⟩
  · exact .rejects hlegal hbelow
  · exact .accepts hlegal hbelow
  · exact .revises hlegal hbelow

/-- A message of the critic that has been recorded after an answer, and where the call goes on. -/
inductive Recorded (graph : GeneratorCritic C) (caps : Caps) (next : State C) (turns : CallTurns)
    (turn : Turn) (leads : Router.Next) : TurnKind → Prop
  | intro {c' : C} {message : Turn} {kind : TurnKind} (hjudges : kind ≠ .Generation)
      (hlists : graph.duo.Lists next c' (turns ++ [(turn, .Generation)] ++ [(message, kind)]))
      (hlegal : caps.Legal (CallTurns.kinds (turns ++ [(turn, .Generation)] ++ [(message, kind)])))
      (hquiet : graph.loop.Quiet next c')
      (hgoes : leads =
        caps.goes (CallTurns.kinds (turns ++ [(turn, .Generation)] ++ [(message, kind)]))) :
      Recorded graph caps next turns turn leads kind

theorem Recorded.conducted {leads : Router.Next} {stage : Stage}
    (hrecorded : Recorded graph caps next turns turn leads kind)
    (hkeeps : Keeps graph caps first trace made state c (turns ++ [(turn, .Generation)]))
    (hjudges : stage = .critique → kind ≠ .Revision) (hshort : Short graph config trace made 1) :
    Conducted graph config caps first (trace ++ [stage]) ⟨leads.stage, next⟩ := by
  obtain ⟨hmessage, hlists, hlegal, hquiet, rfl⟩ := hrecorded
  have hnext := hkeeps.adds hlists hlegal hmessage hjudges
  exact .landed hnext (CallTurns.kinds_snoc _ _ _) hmessage hquiet (hshort.step _)

/-- The check of an answer: it passes to the critic or to the finish, or a message is recorded. -/
theorem check_leads (hlawful : Messages.Lawful C) (hcheck : graph.check = .ok ())
    (hreads : graph.router.Reads config caps)
    (hlists : graph.duo.Lists state c (turns ++ [(turn, .Generation)]))
    (hlegal : caps.Legal (CallTurns.kinds (turns ++ [(turn, .Generation)])))
    (hrested : graph.loop.Rested c) {given : Checking C}
    (hran : graph.duo.check given config state = .ok updates)
    (happlied : state.applyBatch updates = .ok next) {leads : Router.Next}
    (hgoes : graph.router.afterCheck next config = .ok leads) :
    next = state ∧ leads = caps.pass (CallTurns.kinds (turns ++ [(turn, .Generation)])) ∧
        (graph.duo.empty turn = true → leads = .Finish) ∨
      ∃ kind, Recorded graph caps next turns turn leads kind := by
  obtain ⟨hauthors, -, -⟩ := check_ok hcheck
  have hrecorded : ∀ {kind : TurnKind} {text : String}, kind ≠ .Generation →
      graph.duo.record state kind text = .ok updates →
      (∀ message, caps.Legal
        (CallTurns.kinds (turns ++ [(turn, .Generation)] ++ [(message, kind)]))) →
      Recorded graph caps next turns turn leads kind := by
    intro kind text hmessage hrecord hallowed
    obtain ⟨c', message, hlists', hquiet⟩ :=
      record_ok hlawful hauthors hlists hrested hmessage hrecord happlied
    refine .intro hmessage hlists' (hallowed message) hquiet ?_
    have hleads := Router.afterCheck_eq hreads hlists'.callTurns (hallowed message)
      (by rw [CallTurns.kinds_snoc]; simp)
    have hlast : ¬ (CallTurns.kinds (turns ++ [(turn, .Generation)] ++ [(message, kind)])).getLast? =
        some .Generation := by
      rw [CallTurns.kinds_snoc, List.getLast?_concat]
      simpa using hmessage
    rw [hgoes, if_neg hlast] at hleads
    exact Except.ok.inj hleads
  cases check_checked hreads hlists hran with
  | passes hfull =>
    cases happlied
    have hleads := Router.afterCheck_eq hreads hlists.callTurns hlegal
      (by rw [CallTurns.kinds_snoc]; simp)
    rw [hgoes, if_pos (by rw [CallTurns.kinds_snoc]; simp)] at hleads
    cases hleads
    refine .inl ⟨rfl, rfl, fun hempty => ?_⟩
    exact if_neg (Nat.not_lt_of_le (hfull hempty))
  | rejects hbelow hrecords =>
    exact .inr ⟨_, hrecorded (by simp) hrecords fun message =>
      legal_message hlegal (.inl ⟨.inl rfl, hbelow⟩)⟩
  | revises hbelow hrecords =>
    exact .inr ⟨_, hrecorded (by simp) hrecords fun message =>
      legal_message hlegal (.inr ⟨rfl, hbelow⟩)⟩

/-- The critic's judgment of an answer is recorded. -/
theorem critique_leads (hlawful : Messages.Lawful C) (hcheck : graph.check = .ok ())
    (hreads : graph.router.Reads config caps)
    (hlists : graph.duo.Lists state c (turns ++ [(turn, .Generation)]))
    (hlegal : caps.Legal (CallTurns.kinds (turns ++ [(turn, .Generation)])))
    (hbelow : (CallTurns.kinds (turns ++ [(turn, .Generation)])).count .Critique < caps.budget)
    (hrested : graph.loop.Rested c) {ask : CriticFacts C → Except (GraphError C) Step}
    (hran : graph.duo.critique graph.criticSeat ask config state = .ok updates)
    (happlied : state.applyBatch updates = .ok next) {leads : Router.Next}
    (hgoes : graph.router.afterCritique next config = .ok leads) :
    ∃ kind, kind ≠ .Revision ∧ Recorded graph caps next turns turn leads kind := by
  obtain ⟨hauthors, -, -⟩ := check_ok hcheck
  obtain ⟨kind, text, hkind, hrecord⟩ := critique_records hlists hran
  have hmessage : kind ≠ .Generation := by rcases hkind with rfl | rfl <;> simp
  obtain ⟨c', message, hlists', hquiet⟩ :=
    record_ok hlawful hauthors hlists hrested hmessage hrecord happlied
  have hleads := Router.afterCritique_eq hreads hlists'.callTurns
    (by rw [CallTurns.kinds_snoc, List.getLast?_concat]; rcases hkind with rfl | rfl <;> simp)
  have hallowed : caps.Legal
      (CallTurns.kinds (turns ++ [(turn, .Generation)] ++ [(message, kind)])) :=
    legal_message hlegal (.inl ⟨hkind, hbelow⟩)
  exact ⟨kind, by rcases hkind with rfl | rfl <;> simp,
    .intro hmessage hlists' hallowed hquiet (Except.ok.inj (hgoes.symm.trans hleads))⟩

/-- An answer that passed the check goes to the critic or to the finish. -/
theorem Conducted.passed
    (hkeeps : Keeps graph caps first trace made state c (turns ++ [(turn, .Generation)]))
    (hfull : graph.duo.empty turn = true →
      caps.pass (CallTurns.kinds (turns ++ [(turn, .Generation)])) = .Finish)
    (hrested : graph.loop.Rested c) (hshort : Short graph config trace made 2) :
    Conducted graph config caps first (trace ++ [.react .after])
      ⟨(caps.pass (CallTurns.kinds (turns ++ [(turn, .Generation)]))).stage, state⟩ := by
  have hstays : Keeps graph caps first (trace ++ [.react .after]) made state c
      (turns ++ [(turn, .Generation)]) := hkeeps.stays (by simp)
  by_cases hbelow :
    (CallTurns.kinds (turns ++ [(turn, .Generation)])).count .Critique < caps.budget
  · have hpass : caps.pass (CallTurns.kinds (turns ++ [(turn, .Generation)])) = .Critique :=
      if_pos hbelow
    rw [hpass] at hfull ⊢
    refine .judges hstays hbelow ?_ hrested (hshort.step _)
    cases hempty : graph.duo.empty turn with
    | false => rfl
    | true => cases hfull hempty
  · have hpass : caps.pass (CallTurns.kinds (turns ++ [(turn, .Generation)])) = .Finish :=
      if_neg hbelow
    rw [hpass]
    exact .finishes hstays ((hshort.step _).mono (Nat.zero_le _))

theorem Lists.same (hlists : graph.duo.Lists state c turns)
    (hconversation : Same "conversation" state next) (hturns : Same "call_turns" state next) :
    graph.duo.Lists next c turns := by
  obtain ⟨ids, hids, hlisted⟩ := hlists.listed
  exact ⟨hconversation.conversation.trans hlists.conversation,
    ⟨ids, hturns.list.trans hids, hlisted⟩, hlists.stepped⟩

theorem flagOf_key {flag : List (Update C)}
    (hflag : graph.finish.flagOf turns config state = .ok flag) {update : Update C}
    (hupdate : update ∈ flag) : graph.roundLimit.bind roundLimitFlag = some update.key := by
  unfold FinishNode.flagOf at hflag
  split at hflag
  · cases hflag
    cases hupdate
  · rename_i key limit hlimit
    split at hflag
    · cases hflag
    · split at hflag
      · cases hflag
      · cases hflag
        split at hupdate
        · cases List.mem_singleton.mp hupdate
          obtain ⟨found, hfound, hkey⟩ := Option.bind_eq_some_iff.mp hlimit
          obtain ⟨flag, hnames, heq⟩ := Option.map_eq_some_iff.mp hkey
          cases heq
          rw [hfound]
          exact hnames
        · cases hupdate

/-- What the finish writes: the outputs of the call, and nothing that its turns are read from. -/
theorem finish_writes (hcheck : graph.check = .ok ()) (hlists : graph.duo.Lists state c turns)
    (hran : graph.finish.run config state = .ok updates)
    (happlied : state.applyBatch updates = .ok next) :
    graph.duo.Lists next c turns ∧ next.str "answer" = .ok (graph.finish.answerOf turns) ∧
      next.bool "is_validated" = .ok ((CallTurns.kinds turns).getLast? == some .Acceptance) ∧
      next.int "nb_generations" = .ok (heldInt turns.generations) := by
  have hturns : graph.finish.duo.callTurns state = .ok turns := hlists.callTurns
  unfold FinishNode.run at hran
  rw [hturns] at hran
  dsimp only at hran
  split at hran
  · cases hran
  · rename_i flag hflag
    cases hran
    obtain ⟨flagless, hown, hrest⟩ := foldlM_append_ok.mp (applyBatch_all happlied)
    obtain ⟨answered, hanswer, hown⟩ := foldlM_cons_ok.mp hown
    obtain ⟨judged, hvalidated, hown⟩ := foldlM_cons_ok.mp hown
    have hgenerations := foldlM_single_ok.mp hown
    have hflagged : ∀ key ∈ ["is_validated", "opening", "conversation", "answer", "nb_generations",
        "turn_rank", "call_turns"], Same key flagless next := by
      intro key hkey
      refine applyAll_same (fun update hupdate heq => ?_) hrest
      exact flag_ne hcheck (flagOf_key hflag hupdate) (heq ▸ hkey)
    have hanswered : ∀ key, "answer" ≠ key → Same key state answered :=
      fun _ hne => applyOne_same hanswer hne
    have hjudged : ∀ key, "is_validated" ≠ key → Same key answered judged :=
      fun _ hne => applyOne_same hvalidated hne
    have hcounted : ∀ key, "nb_generations" ≠ key → Same key judged flagless :=
      fun _ hne => applyOne_same hgenerations hne
    have hconversation : Same "conversation" state next :=
      (((hanswered _ (by decide)).trans (hjudged _ (by decide))).trans
        (hcounted _ (by decide))).trans (hflagged _ (by decide))
    have hlist : Same "call_turns" state next :=
      (((hanswered _ (by decide)).trans (hjudged _ (by decide))).trans
        (hcounted _ (by decide))).trans (hflagged _ (by decide))
    have hanswerHeld : answered.value "answer" = .ok (.str (graph.finish.answerOf turns)) :=
      set_ok hanswer
    have hvalidatedHeld : judged.value "is_validated" =
        .ok (.bool (turns.getLast?.map Prod.snd == some .Acceptance)) := set_ok hvalidated
    have hgenerationsHeld : flagless.value "nb_generations" =
        .ok (.int (heldInt turns.generations)) := set_ok hgenerations
    refine ⟨Lists.same hlists hconversation hlist, ?_, ?_, ?_⟩
    · unfold State.str
      rw [(((hjudged "answer" (by decide)).trans (hcounted _ (by decide))).trans
        (hflagged _ (by decide))).value, hanswerHeld]
    · unfold State.bool
      rw [((hcounted "is_validated" (by decide)).trans (hflagged _ (by decide))).value,
        hvalidatedHeld, CallTurns.last_kind]
    · unfold State.int
      rw [(hflagged "nb_generations" (by decide)).value, hgenerationsHeld]

/-- The finish of a run. -/
theorem Conducted.finished (hcheck : graph.check = .ok ())
    (hkeeps : Keeps graph caps first trace made state c turns)
    (hshort : Short graph config trace made 0)
    (hran : graph.finish.run config state = .ok updates)
    (happlied : state.applyBatch updates = .ok next) {validated : Bool}
    (hgoes : graph.finish.edge next = .ok validated) :
    Conducted graph config caps first (trace ++ [.finish]) ⟨.ended validated, next⟩ := by
  obtain ⟨hlists, hanswer, hvalidated, hgenerations⟩ :=
    finish_writes hcheck hkeeps.lists hran happlied
  have haccepted : graph.finish.edge next =
      .ok ((CallTurns.kinds turns).getLast? == some .Acceptance) := hvalidated
  cases hgoes.symm.trans haccepted
  have hstays : Keeps graph caps first (trace ++ [.finish]) made state c turns :=
    hkeeps.stays (by simp)
  have hnext : Keeps graph caps first (trace ++ [.finish]) made next c turns :=
    ⟨hlists, hstays.legal, hstays.grows, hstays.answers, hstays.judged⟩
  refine .ends hnext hanswer hgenerations rfl fun width hwidth => ?_
  have htotal := hshort width hwidth
  rw [List.length_append, List.length_singleton]
  omega

theorem Conducted.step (hlawful : Messages.Lawful C) (hcheck : graph.check = .ok ())
    (hreads : graph.router.Reads config caps) {here next : Standing C} {stage : Stage}
    (hconducted : Conducted graph config caps first trace here)
    (hstep : graph.Superstep config here stage next) :
    Conducted graph config caps first (trace ++ [stage]) next := by
  cases hstep with
  | @reacts here next spot hstep' =>
    obtain ⟨spot, state⟩ := here
    cases hconducted with
    | generates hkeeps hasked hquiet hshort =>
        exact .opens hlawful hcheck hkeeps hasked hquiet hshort hstep'
    | writes hkeeps hon halong hgoing hconversation hopens hruns hshort =>
      exact .goes_on hlawful hcheck hkeeps hon halong hconversation hopens hruns hshort hstep'
    | checks hkeeps hrested hshort => cases hstep'
  | checks hran happlied hgoes =>
    cases hconducted with
    | writes hkeeps hon halong hgoing hconversation hopens hruns hshort => exact absurd rfl hgoing
    | checks hkeeps hrested hshort =>
      rcases check_leads hlawful hcheck hreads hkeeps.lists hkeeps.legal hrested hran happlied hgoes
        with
        ⟨rfl, rfl, hfull⟩ | ⟨kind, hrecorded⟩
      · exact .passed hkeeps hfull hrested hshort
      · exact hrecorded.conducted hkeeps (by simp) (hshort.mono (by omega))
  | critiques hran happlied hgoes =>
    cases hconducted with
    | judges hkeeps hbelow hfull hrested hshort =>
      obtain ⟨kind, hjudges, hrecorded⟩ :=
        critique_leads hlawful hcheck hreads hkeeps.lists hkeeps.legal hbelow hrested hran happlied
        hgoes
      exact hrecorded.conducted hkeeps (fun _ => hjudges) hshort
  | finishes hran happlied hgoes =>
    cases hconducted with
    | finishes hkeeps hshort => exact .finished hcheck hkeeps hshort hran happlied hgoes

theorem Conducted.run (hlawful : Messages.Lawful C) (hcheck : graph.check = .ok ())
    (hbegins : Begins graph config caps state first) {last : Standing C}
    (hruns : graph.Runs config ⟨(caps.goes (CallTurns.kinds first)).stage, state⟩ trace last) :
    Conducted graph config caps first trace last :=
  hruns.invariant (hbegins.conducted hlawful) fun _ _ _ _ hhere hstep =>
    hhere.step hlawful hcheck hbegins.reads hstep

theorem Begins.entry (hbegins : Begins graph config caps state first) {leads : Router.Next}
    (hentry : graph.router.entry state config = .ok leads) :
    leads = caps.goes (CallTurns.kinds first) := by
  obtain ⟨c, hlists, -⟩ := hbegins.lists
  exact Except.ok.inj (hentry.symm.trans (Router.entry_eq hbegins.reads hlists.callTurns))

/-- The turns of the call at any point of a run. -/
theorem Conducted.keeps {last : Standing C} (hconducted : Conducted graph config caps first trace last) :
    ∃ made c turns, Keeps graph caps first trace made last.state c turns := by
  cases hconducted with
  | generates hkeeps hasked hquiet hshort => exact ⟨_, _, _, hkeeps⟩
  | writes hkeeps hon halong hgoing hconversation hopens hruns hshort => exact ⟨_, _, _, hkeeps⟩
  | checks hkeeps hrested hshort => exact ⟨_, _, _, hkeeps⟩
  | judges hkeeps hbelow hfull hrested hshort => exact ⟨_, _, _, hkeeps⟩
  | finishes hkeeps hshort => exact ⟨_, _, _, hkeeps⟩
  | ends hkeeps hanswer hgenerations haccepted hshort => exact ⟨_, _, _, hkeeps⟩

end Steps

theorem mem_of_turnOf {id : TurnId} {c : C} {turn : Turn} (hfound : turnOf c id = some turn) :
    Entry.Turn turn ∈ entries c := by
  unfold turnOf at hfound
  obtain ⟨front, entry, back, hsplit, hentry, -⟩ := List.findSome?_eq_some_iff.mp hfound
  cases entry with
  | UserInput input => cases hentry
  | Turn found =>
    dsimp only at hentry
    split at hentry
    · cases hentry
      exact hsplit ▸ List.mem_append_right _ List.mem_cons_self
    · cases hentry

theorem sinceTrigger_found (hlawful : Messages.Lawful C) {c : C} {id : TurnId}
    (hmem : Value.str id ∈ graph.duo.sinceTrigger c) : (turnOf c id).isSome = true := by
  unfold Duo.sinceTrigger at hmem
  obtain ⟨entry, hentry, hlisted⟩ := List.mem_filterMap.mp hmem
  have hheld := List.mem_reverse.mp (List.takeWhile_subset _ (List.mem_reverse.mp hentry))
  cases entry with
  | UserInput input => cases hlisted
  | Turn turn =>
    dsimp only at hlisted
    split at hlisted
    · cases hlisted
      rw [ReactLoop.turnOf_mem hlawful hheld]
      rfl
    · cases hlisted

/-- In memory a call begins with the turns of its opening since the trigger. -/
theorem route_begins (hlawful : Messages.Lawful C) (graph : GeneratorCritic C)
    (config : Config C) (caps : Caps) (hreads : graph.router.Reads config caps) (state next : State C)
    (opening : C) (hopening : state.conversation "opening" = .ok opening)
    (hstepped : ∀ turn, Entry.Turn turn ∈ entries opening → (finalStep turn).isSome = true)
    (hrested : ∀ turn, lastTurnByAuthor opening graph.generator = some turn →
      turn.awaits ≠ .AwaitingStep)
    (hfresh : ∀ id turn, graph.call.turnId state 1 = .ok id → turnOf opening id = some turn →
      turn.awaits ≠ .AwaitingStep)
    (hlegal : caps.Legal
      (CallTurns.kinds ((graph.duo.sinceTrigger opening).filterMap (graph.duo.listed opening))))
    {updates : List (Update C)} (hroute : graph.duo.route state = .ok updates)
    (happlied : state.applyBatch updates = .ok next) :
    Begins graph config caps next
      ((graph.duo.sinceTrigger opening).filterMap (graph.duo.listed opening)) := by
  have hcall : state.conversation graph.duo.call.opening = .ok opening := hopening
  unfold Duo.route at hroute
  rw [hcall] at hroute
  cases hroute
  obtain ⟨started, hstart, hrest⟩ := foldlM_cons_ok.mp (applyBatch_all happlied)
  obtain ⟨listed, hlist, hmove⟩ := foldlM_cons_ok.mp hrest
  have hmove := foldlM_single_ok.mp hmove
  have hstarted : ∀ key, "conversation" ≠ key → Same key state started :=
    fun _ hne => applyOne_same hstart hne
  have hlisted : ∀ key, "call_turns" ≠ key → Same key started listed :=
    fun _ hne => applyOne_same hlist hne
  have hmoved : ∀ key, "turn_rank" ≠ key → Same key listed next :=
    fun _ hne => applyOne_same hmove hne
  have hconversation : next.conversation graph.duo.conversation = .ok opening := by
    have hheld : started.value "conversation" = .ok (.conversation opening) := set_ok hstart
    have hsame := (hlisted "conversation" (by decide)).trans (hmoved _ (by decide))
    show next.conversation "conversation" = _
    unfold State.conversation
    rw [hsame.value, hheld]
  have hids : next.list graph.duo.turns = .ok (graph.duo.sinceTrigger opening) := by
    have hheld : listed.value "call_turns" = .ok (.list (graph.duo.sinceTrigger opening)) :=
      set_ok hlist
    have hsame := hmoved "call_turns" (by decide)
    show next.list "call_turns" = _
    unfold State.list
    rw [hsame.value, hheld]
  have hopened : Same "opening" state next :=
    ((hstarted _ (by decide)).trans (hlisted _ (by decide))).trans (hmoved _ (by decide))
  refine ⟨hreads, hlegal, opening, ⟨hconversation, ⟨_, hids, rfl, fun id hmem =>
    sinceTrigger_found hlawful hmem⟩, fun turn hmem => ?_⟩, fun turn htarget => ?_⟩
  · obtain ⟨value, -, hvalue⟩ := List.mem_filterMap.mp hmem
    cases value with
    | str id =>
      rw [Duo.listed_str] at hvalue
      obtain ⟨found, hfound, hkind⟩ := Option.bind_eq_some_iff.mp hvalue
      obtain ⟨kind, -, rfl⟩ := Option.map_eq_some_iff.mp hkind
      exact hstepped found (mem_of_turnOf hfound)
    | _ => cases hvalue
  · obtain ⟨hawaits, ⟨-, hlast⟩ | ⟨position, id, hposition, hid, hturn⟩⟩ :=
      ReactLoop.target_step hlawful htarget
    · exact hrested turn hlast hawaits
    · have hnow : graph.loop.call.positionOf next = .ok (.Writing 1) :=
        ReactLoop.moveTo_position hmove
      cases hnow.symm.trans hposition
      exact hfresh id turn ((ReactLoop.turnId_same hopened 1).symm.trans hid) hturn hawaits

/-- Whatever the model, the tools, the rule check and the critic say, a call of a generator-critic
keeps its bounds: each of its answers is asked by what comes before it and judged at most once, its
critiques stay within the budget and its revisions in a row within their limit,
it holds no more answers than these allow, the critic is asked at most once for each critique that is
left, and it is never asked about an empty answer. -/
theorem call_bounded (hlawful : Messages.Lawful C) (graph : GeneratorCritic C)
    (hcheck : graph.check = .ok ()) (config : Config C) (caps : Caps) (state : State C)
    (first : CallTurns) (hbegins : Begins graph config caps state first) (leads : Router.Next)
    (hentry : graph.router.entry state config = .ok leads) (trace : List Stage) (last : Standing C)
    (hruns : graph.Runs config ⟨leads.stage, state⟩ trace last) :
    ∃ turns, graph.duo.callTurns last.state = .ok turns ∧ caps.Legal (CallTurns.kinds turns) ∧
      CallTurns.kinds first <+: CallTurns.kinds turns ∧ turns.critiques ≤ caps.budget ∧
      turns.revisionsInARow ≤ caps.revisions ∧
      turns.generations ≤ (if caps.finalGeneration then caps.budget + 1 else max caps.budget 1) *
        (caps.revisions + 1) ∧
      trace.count .critique ≤ caps.budget - first.critiques ∧
      (last.stage = .critique → ∃ turn, turns.lastGeneration = some turn ∧
        graph.duo.empty turn = false ∧ turns.critiques < caps.budget) := by
  rw [hbegins.entry hentry] at hruns
  have hconducted := Conducted.run hlawful hcheck hbegins hruns
  have hbounds : ∀ {made c turns}, Keeps graph caps first trace made last.state c turns →
      graph.duo.callTurns last.state = .ok turns ∧ caps.Legal (CallTurns.kinds turns) ∧
      CallTurns.kinds first <+: CallTurns.kinds turns ∧ turns.critiques ≤ caps.budget ∧
      turns.revisionsInARow ≤ caps.revisions ∧
      turns.generations ≤ (if caps.finalGeneration then caps.budget + 1 else max caps.budget 1) *
        (caps.revisions + 1) ∧
      trace.count .critique ≤ caps.budget - first.critiques := by
    intro made c turns hkeeps
    have hwithin := hkeeps.legal.within
    have hcritiques := hwithin.critiques
    have hjudged := hkeeps.judged
    have hfirst := CallTurns.count_kinds first .Critique
    have hcount := CallTurns.count_kinds turns .Critique
    have hanswers := CallTurns.count_kinds turns .Generation
    refine ⟨hkeeps.lists.callTurns, hkeeps.legal, hkeeps.grows, hcount.le.trans hcritiques, ?_, ?_, ?_⟩
    · rw [CallTurns.revisionsInARow_kinds]
      exact hwithin.revisions
    · unfold CallTurns.generations
      rw [hanswers]
      exact hkeeps.legal.answers_le
    · unfold CallTurns.critiques
      rw [hfirst]
      split at hjudged
      · rename_i haccepted
        have hleft := hwithin.accepted haccepted
        omega
      · omega
  by_cases hjudges : last.stage = .critique
  · cases hconducted with
    | judges hkeeps' hbelow hfull hrested hshort =>
      obtain ⟨hturns, hlegal, hgrows, hcritiques, hrevisions, hanswers, hasked⟩ := hbounds hkeeps'
      refine ⟨_, hturns, hlegal, hgrows, hcritiques, hrevisions, hanswers, hasked, fun _ => ?_⟩
      refine ⟨_, lastGeneration_snoc _ _, hfull, ?_⟩
      unfold CallTurns.critiques
      rw [CallTurns.count_kinds]
      exact hbelow
    | generates hkeeps' hasked' hquiet hshort => cases hjudges
    | writes hkeeps' hon halong hgoing hconversation hopens hruns' hshort => cases hjudges
    | checks hkeeps' hrested hshort => cases hjudges
    | finishes hkeeps' hshort => cases hjudges
    | ends hkeeps' hanswer hgenerations haccepted' hshort => cases hjudges
  · obtain ⟨made, c, turns, hkeeps⟩ := hconducted.keeps
    obtain ⟨hturns, hlegal, hgrows, hcritiques, hrevisions, hanswers, hasked⟩ := hbounds hkeeps
    exact ⟨turns, hturns, hlegal, hgrows, hcritiques, hrevisions, hanswers, hasked,
      fun hjudged => absurd hjudged hjudges⟩

/-- Whether a superstep has stored a turn of the call: an answer that is complete, or a message of the
critic. -/
def Stores (graph : GeneratorCritic C) (here next : Standing C) : Prop :=
  next.stage = .react .after ∨ (here.stage = .react .after ∨ here.stage = .critique) ∧
    graph.duo.callTurns next.state ≠ graph.duo.callTurns here.state

/-- Wherever a run has just stored a turn of the call, a run that enters with the turns stored so far
goes where the run itself goes. -/
theorem entry_agrees (hlawful : Messages.Lawful C) (graph : GeneratorCritic C)
    (hcheck : graph.check = .ok ()) (config : Config C) (caps : Caps) (state : State C)
    (first : CallTurns) (hbegins : Begins graph config caps state first) (leads : Router.Next)
    (hentry : graph.router.entry state config = .ok leads) (trace : List Stage) (here next : Standing C)
    (hruns : graph.Runs config ⟨leads.stage, state⟩ trace here) (stage : Stage)
    (hstep : graph.Superstep config here stage next) (hstores : Stores graph here next) :
    ∃ again, graph.router.entry next.state config = .ok again ∧ again.stage = next.stage := by
  rw [hbegins.entry hentry] at hruns
  have hhere := Conducted.run hlawful hcheck hbegins hruns
  have hnext := hhere.step hlawful hcheck hbegins.reads hstep
  have hrecorded : ∀ {turns turn leads kind}, Recorded graph caps next.state turns turn leads kind →
      next.stage = leads.stage → ∃ again, graph.router.entry next.state config = .ok again ∧
        again.stage = next.stage := by
    rintro turns turn leads kind ⟨-, hlists, -, -, rfl⟩ hleads
    exact ⟨_, Router.entry_eq hbegins.reads hlists.callTurns, hleads.symm⟩
  rcases hstores with hchecks | ⟨hmessage, hchanged⟩
  · cases hnext with
    | checks hkeeps hrested hshort =>
      refine ⟨_, Router.entry_eq hbegins.reads hkeeps.lists.callTurns, ?_⟩
      rw [CallTurns.kinds_snoc]
      simp [Caps.goes, Router.Next.stage]
    | writes hkeeps hon halong hgoing hconversation hopens hruns' hshort =>
      exact absurd (Stage.react.inj hchecks) hgoing
    | generates hkeeps hasked hquiet hshort => cases hchecks
    | judges hkeeps hbelow hfull hrested hshort => cases hchecks
    | finishes hkeeps hshort => cases hchecks
    | ends hkeeps hanswer hgenerations haccepted hshort => cases hchecks
  · cases hstep with
    | @reacts here next spot hstep' =>
      exfalso
      rcases hmessage with hafter | hcritique
      · obtain ⟨spot, state⟩ := here
        cases Stage.react.inj hafter
        cases hstep'
      · cases hcritique
    | checks hran happlied hgoes =>
      cases hhere with
      | writes hkeeps hon halong hgoing hconversation hopens hruns' hshort => exact absurd rfl hgoing
      | checks hkeeps hrested hshort =>
        rcases check_leads hlawful hcheck hbegins.reads hkeeps.lists hkeeps.legal hrested hran happlied
          hgoes with ⟨rfl, rfl, hfull⟩ | ⟨kind, hrecorded'⟩
        · exact absurd rfl hchanged
        · exact hrecorded hrecorded' rfl
    | critiques hran happlied hgoes =>
      cases hhere with
      | judges hkeeps hbelow hfull hrested hshort =>
        obtain ⟨kind, hjudges, hrecorded'⟩ := critique_leads hlawful hcheck hbegins.reads hkeeps.lists
          hkeeps.legal hbelow hrested hran happlied hgoes
        exact hrecorded hrecorded' rfl
    | finishes hran happlied hgoes => rcases hmessage with hafter | hcritique <;> contradiction

/-- A run of a generator-critic whose generator has a round limit is bounded, and when it ends its
outputs are those of the turns of its call: the text of its last answer, the number of its answers, and
validated exactly when the last turn accepts. -/
theorem run_bounded (hlawful : Messages.Lawful C) (graph : GeneratorCritic C)
    (hcheck : graph.check = .ok ()) (config : Config C) (caps : Caps) (state : State C)
    (first : CallTurns) (hbegins : Begins graph config caps state first) (leads : Router.Next)
    (hentry : graph.router.entry state config = .ok leads) (limit : RoundLimit)
    (hlimit : graph.roundLimit = some limit) (max : Nat)
    (hmax : limit.maxRounds.resolve config = .ok max) (hfits : max < 2 ^ 64) (trace : List Stage)
    (last : Standing C) (hruns : graph.Runs config ⟨leads.stage, state⟩ trace last) :
    ∃ turns, graph.duo.callTurns last.state = .ok turns ∧
      trace.length ≤ (turns.generations - first.generations) * (2 * max + 5) + 3 ∧
      ∀ validated, last.stage = .ended validated →
        last.state.str "answer" = .ok (graph.finish.answerOf turns) ∧
        last.state.int "nb_generations" = .ok (heldInt turns.generations) ∧
        validated = ((CallTurns.kinds turns).getLast? == some .Acceptance) := by
  rw [hbegins.entry hentry] at hruns
  have hwidth : graph.loop.Lasts config (2 * max + 3) := by
    intro opened before id moved segment reached hconversation hopens hsegment
    obtain ⟨-, -, hloop⟩ := check_ok hcheck
    exact (ReactLoop.rounds_bounded hlawful graph.loop (loop_wired hcheck) hloop limit hlimit config
      max hmax hfits opened before id moved hconversation hopens segment reached hsegment).2.2.2.2.2
  have hmade : ∀ {made c turns}, Keeps graph caps first trace made last.state c turns →
      made = turns.generations - first.generations := by
    intro made c turns hkeeps
    have hanswers := hkeeps.answers
    unfold CallTurns.generations
    rw [CallTurns.count_kinds, CallTurns.count_kinds, hanswers]
    omega
  have hopen : ∀ {made c turns left}, Keeps graph caps first trace made last.state c turns →
      Short graph config trace made left →
      trace.length ≤ (turns.generations - first.generations) * (2 * max + 5) + 3 := by
    intro made c turns left hkeeps hshort
    have htotal : trace.length + left ≤ made * (2 * max + 5) + 2 := hshort (2 * max + 3) hwidth
    rw [← hmade hkeeps]
    omega
  cases Conducted.run hlawful hcheck hbegins hruns with
  | generates hkeeps' hasked hquiet hshort' =>
    exact ⟨_, hkeeps'.lists.callTurns, hopen hkeeps' hshort', fun _ hended => by cases hended⟩
  | @writes spot state opened c before turns turn made id moved segment hkeeps' hon halong hgoing
      hconversation' hopens' hruns' hshort' =>
    refine ⟨_, hkeeps'.lists.callTurns, ?_, fun _ hended => by cases hended⟩
    have htotal : trace.length + (2 * max + 5) ≤ made * (2 * max + 5) + 2 + segment.length :=
      hshort' (2 * max + 3) hwidth
    have hsegment := hwidth _ _ _ _ _ _ hconversation' hopens' hruns'
    rw [← hmade hkeeps']
    omega
  | checks hkeeps' hrested hshort' =>
    exact ⟨_, hkeeps'.lists.callTurns, hopen hkeeps' hshort', fun _ hended => by cases hended⟩
  | judges hkeeps' hbelow hfull hrested hshort' =>
    exact ⟨_, hkeeps'.lists.callTurns, hopen hkeeps' hshort', fun _ hended => by cases hended⟩
  | finishes hkeeps' hshort' =>
    exact ⟨_, hkeeps'.lists.callTurns, hopen hkeeps' hshort', fun _ hended => by cases hended⟩
  | @ends state c turns made validated hkeeps' hanswer hgenerations haccepted hshort' =>
    refine ⟨_, hkeeps'.lists.callTurns, ?_, fun validated hended => ?_⟩
    · have htotal : trace.length ≤ made * (2 * max + 5) + 3 := hshort' (2 * max + 3) hwidth
      rw [← hmade hkeeps']
      omega
    · cases hended
      exact ⟨hanswer, hgenerations, haccepted⟩

end GeneratorCritic

namespace Judging

/-- One critique and one revision in a row are allowed. -/
def graph : GeneratorCritic PlainMessages where
  generator := ⟨"g", "Gil"⟩
  tools := []
  toolNodes := []
  enabled := none
  toolConcurrency := none
  roundLimit := some ⟨.fixed 1 Nat.one_pos, .End "limit" "limited"⟩
  critic := ⟨"k", "Kay"⟩
  form := .Default fun text => if text = "yes" then .ok ⟨true, ""⟩ else .error "unread"
  verdictRetries := .fixed 0
  maxCritiques := .fixed 1
  finalGeneration := true
  revisionLimit := .fixed 1
  durable := false
  ids := fun _ rank => s!"t{rank}"

def caps : Caps := ⟨1, 1, true⟩

def opened : State PlainMessages where
  schema := ⟨[("opening", .conversation), ("conversation", .conversation), ("turn_rank", .int),
    ("call_turns", .list .str), ("answer", .str), ("is_validated", .bool), ("nb_generations", .int),
    ("limited", .bool)], [], []⟩
  values := fun key =>
    if key = "opening" || key = "conversation" then some (.conversation Cut.question)
    else if key = "turn_rank" || key = "nb_generations" then some (.int 0)
    else if key = "call_turns" then some (.list [])
    else if key = "answer" then some (.str "")
    else some (.bool false)

def begun : State PlainMessages := Cut.after opened ((graph.duo.route opened).toOption.getD [])

def spoken (text : String) : Step := ⟨[.Text text], .EndTurn, none, none⟩

def replied (state : State PlainMessages) (text : String) : State PlainMessages :=
  Cut.after state ((graph.loop.reply state (spoken text)).toOption.getD [])

def checking (ruling : Ruling) : Checking PlainMessages :=
  ⟨some fun _ => .ok ruling, fun _ => .ok ""⟩

def checked (state : State PlainMessages) (ruling : Ruling) : State PlainMessages :=
  Cut.after state ((graph.duo.check (checking ruling) Cut.config state).toOption.getD [])

def asked : CriticFacts PlainMessages → Except (GraphError PlainMessages) Step :=
  fun _ => .ok ⟨[.Structured "yes"], .EndTurn, none, none⟩

def draft : State PlainMessages := replied begun "draft"

def revised : State PlainMessages := checked draft (.Revise "more")

def final : State PlainMessages := replied revised "final"

def accepted : State PlainMessages :=
  Cut.after final
    ((graph.duo.critique graph.criticSeat asked Cut.config final).toOption.getD [])

def finished : State PlainMessages :=
  Cut.after accepted ((graph.finish.run Cut.config accepted).toOption.getD [])

theorem reads : graph.router.Reads Cut.config caps := ⟨rfl, rfl, rfl, rfl⟩

theorem begins : GeneratorCritic.Begins graph Cut.config caps begun [] := by
  have hnone : ∀ turn, Entry.Turn turn ∉ entries Cut.question := by
    intro turn hmem
    cases List.mem_singleton.mp hmem
  have hroute : graph.duo.route opened = .ok ((graph.duo.route opened).toOption.getD []) := rfl
  have hbegins := GeneratorCritic.route_begins PlainMessages.lawful graph Cut.config caps reads opened
    begun Cut.question rfl (fun turn hmem => absurd hmem (hnone turn))
    (fun turn hlast => by cases hlast) (fun id turn _ hfound => by cases hfound) .nothing hroute
    (Cut.after_ok (by decide +kernel))
  exact hbegins

theorem replies {state : State PlainMessages} {text : String}
    (hran : graph.loop.reply state (spoken text) =
      .ok ((graph.loop.reply state (spoken text)).toOption.getD []))
    (happlied :
      (state.applyBatch ((graph.loop.reply state (spoken text)).toOption.getD [])).toOption.isSome)
    (hedge : graph.loop.llmEdge Cut.config (replied state text) = .ok .After) :
    graph.Superstep Cut.config ⟨.react .llm, state⟩ (.react .llm)
      ⟨.react .after, replied state text⟩ :=
  .reacts (.replies hran (Cut.after_ok happlied) hedge)

theorem replies_draft :
    graph.Superstep Cut.config ⟨.react .llm, begun⟩ (.react .llm) ⟨.react .after, draft⟩ :=
  replies rfl (by decide +kernel) rfl

theorem revises : graph.Superstep Cut.config ⟨.react .after, draft⟩ (.react .after)
    ⟨.react .llm, revised⟩ := by
  have hran : graph.duo.check (checking (.Revise "more")) Cut.config draft = .ok
      ((graph.duo.check (checking (.Revise "more")) Cut.config draft).toOption.getD []) := rfl
  have hgoes : graph.router.afterCheck revised Cut.config = .ok .Generate := rfl
  exact .checks hran (Cut.after_ok (by decide +kernel)) hgoes

theorem runs : graph.Runs Cut.config ⟨.react .llm, begun⟩
    [.react .llm, .react .after, .react .llm, .react .after, .critique, .finish]
    ⟨.ended true, finished⟩ := by
  have hthird : graph.Superstep Cut.config ⟨.react .llm, revised⟩ (.react .llm)
      ⟨.react .after, final⟩ := replies rfl (by decide +kernel) rfl
  have hfourth : graph.Superstep Cut.config ⟨.react .after, final⟩ (.react .after)
      ⟨.critique, final⟩ := by
    have hran : graph.duo.check (checking .Pass) Cut.config final = .ok [] := rfl
    have hgoes : graph.router.afterCheck final Cut.config = .ok .Critique := rfl
    exact .checks hran rfl hgoes
  have hfifth : graph.Superstep Cut.config ⟨.critique, final⟩ .critique ⟨.finish, accepted⟩ := by
    have hran : graph.duo.critique graph.criticSeat asked Cut.config final = .ok
        ((graph.duo.critique graph.criticSeat asked Cut.config final).toOption.getD []) := rfl
    have hgoes : graph.router.afterCritique accepted Cut.config = .ok .Finish := rfl
    exact .critiques hran (Cut.after_ok (by decide +kernel)) hgoes
  have hsixth : graph.Superstep Cut.config ⟨.finish, accepted⟩ .finish ⟨.ended true, finished⟩ := by
    have hran : graph.finish.run Cut.config accepted = .ok
        ((graph.finish.run Cut.config accepted).toOption.getD []) := rfl
    exact .finishes hran (Cut.after_ok (by decide +kernel)) rfl
  exact (((((Lib.Trace.single replies_draft).snoc revises).snoc hthird).snoc hfourth).snoc
    hfifth).snoc hsixth

theorem stores : GeneratorCritic.Stores graph ⟨.react .after, draft⟩ ⟨.react .llm, revised⟩ := by
  refine .inr ⟨.inl rfl, fun hsame => ?_⟩
  have hlengths := congrArg (fun found => found.toOption.map List.length) hsame
  have hdifferent : (graph.duo.callTurns revised).toOption.map List.length ≠
      (graph.duo.callTurns draft).toOption.map List.length := by decide +kernel
  exact hdifferent hlengths

end Judging

theorem call_bounded_judging :
    ∃ turns, Judging.graph.duo.callTurns Judging.finished = .ok turns ∧
      CallTurns.critiques turns ≤ 1 ∧ CallTurns.generations turns ≤ 2 * 2 := by
  obtain ⟨turns, hturns, -, -, hcritiques, -, hanswers, -⟩ :=
    GeneratorCritic.call_bounded PlainMessages.lawful Judging.graph rfl Cut.config Judging.caps
      Judging.begun [] Judging.begins .Generate rfl _ _ Judging.runs
  exact ⟨turns, hturns, hcritiques, hanswers⟩

theorem entry_agrees_judging :
    ∃ again, Judging.graph.router.entry Judging.revised Cut.config = .ok again ∧
      again.stage = .react .llm :=
  GeneratorCritic.entry_agrees PlainMessages.lawful Judging.graph rfl Cut.config Judging.caps
    Judging.begun [] Judging.begins .Generate rfl [.react .llm] _ _ (.single Judging.replies_draft) _
    Judging.revises Judging.stores

theorem run_bounded_judging :
    ∃ turns, Judging.graph.duo.callTurns Judging.finished = .ok turns ∧
      Judging.finished.str "answer" = .ok (Judging.graph.finish.answerOf turns) := by
  obtain ⟨turns, hturns, -, hends⟩ :=
    GeneratorCritic.run_bounded PlainMessages.lawful Judging.graph rfl Cut.config Judging.caps
      Judging.begun [] Judging.begins .Generate rfl _ rfl 1 rfl (by decide) _ _ Judging.runs
  exact ⟨turns, hturns, (hends true rfl).1⟩

end LlmGraph.React
